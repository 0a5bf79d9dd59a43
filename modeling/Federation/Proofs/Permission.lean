import Federation.Network.Gate
import Federation.Proofs.DocumentGraph
import Federation.Proofs.HubAndSpokeRoute
import Federation.Proofs.PeerToPeerRoute
import Federation.Proofs.SnapshotLookup

/-!
# What the gate permits

A gate over the graphs of valid documents permits what these documents say it should: the providers
are the same, or the relationships of the document lead from the one to the other in the way of its
topology. It denies everything else.
-/

namespace Federation

/-- What lets a login go from one provider to another in the network of a document. -/
inductive NetworkDocument.Permits (doc : NetworkDocument) (source target : String) : Prop where
  /-- The providers are the same, whether or not the document has them. -/
  | same (served : doc.topology.name = "hub-and-spoke" ∨ doc.topology.name = "peer-to-peer")
      (h : source = target)
  | direct (topology : doc.topology.name = "hub-and-spoke") (h : doc.Relates source target)
  /-- A hub stands between two providers that are no hubs. -/
  | bridged (topology : doc.topology.name = "hub-and-spoke") (hsource : ¬ doc.IsHub source)
      (htarget : ¬ doc.IsHub target) {hub : String} (hhub : doc.IsHub hub)
      (first : doc.Relates source hub) (last : doc.Relates hub target)
  /-- A chain of at most ten relationships leads from the one to the other. -/
  | chained (topology : doc.topology.name = "peer-to-peer") {n : Nat} (hpos : 1 ≤ n) (hle : n ≤ 10)
      (chain : Hops doc.Relates source n target)

namespace PolicyRegistry

theorem get?_register (r : PolicyRegistry) (p : Policy) (topology : String) :
    (r.register p).get? topology = if topology == p.topology then some p else r.get? topology :=
  Table.get?_insert r.policies p.topology topology p

/-- The standard registry serves two topologies. -/
theorem get?_standard (topology : String) :
    standard.get? topology =
      if topology == "peer-to-peer" then some PeerToPeer.standard.policy
      else if topology == "hub-and-spoke" then some HubAndSpoke.policy
      else none := by
  rw [standard, get?_register, get?_register]
  rfl

end PolicyRegistry

namespace NetworkDocument

section Built

variable {doc : NetworkDocument} {g : TrustGraph} (built : doc.toGraph = .ok g)
include built

theorem trusts_toGraph_iff {source target : ProviderId} :
    g.Trusts source target ↔ doc.Relates source.text target.text :=
  (GraphBuilder.wellFormed_of_build built).hasEdge_iff.symm.trans (hasEdge_toGraph_iff built)

/-- The walks of the graph are the chains of relationships. -/
theorem hops_toGraph_iff {source target : String} {n : Nat} :
    Hops g.Trusts ⟨source⟩ n ⟨target⟩ ↔ Hops doc.Relates source n target := by
  constructor
  · intro walk
    exact walk.map (f := ProviderId.text) fun _ _ => (trusts_toGraph_iff built).1
  · intro chain
    exact chain.map (f := ProviderId.mk) fun _ _ => (trusts_toGraph_iff built).2

/-- What hub-and-spoke routing connects, in terms of the document. -/
theorem hubAndSpoke_reachable_iff {source target : String} (hne : source ≠ target) :
    (HubAndSpoke.policy.trustPath g ⟨source⟩ ⟨target⟩).reachable = true ↔
      doc.Relates source target ∨ ¬ doc.IsHub source ∧ ¬ doc.IsHub target ∧
        ∃ hub, doc.IsHub hub ∧ doc.Relates source hub ∧ doc.Relates hub target := by
  have ids_ne : (⟨source⟩ : ProviderId) ≠ ⟨target⟩ := fun heq => hne (ProviderId.mk.inj heq)
  have hubs : (∃ hub, g.HasHub hub ∧
      g.hasEdge ⟨source⟩ hub = true ∧ g.hasEdge hub ⟨target⟩ = true) ↔
      ∃ hub, doc.IsHub hub ∧ doc.Relates source hub ∧ doc.Relates hub target := by
    constructor
    · rintro ⟨⟨hub⟩, hhub, first, last⟩
      exact ⟨hub, (hasHub_toGraph_iff built).1 hhub, (hasEdge_toGraph_iff built).1 first,
        (hasEdge_toGraph_iff built).1 last⟩
    · rintro ⟨hub, hhub, first, last⟩
      exact ⟨⟨hub⟩, (hasHub_toGraph_iff built).2 hhub, (hasEdge_toGraph_iff built).2 first,
        (hasEdge_toGraph_iff built).2 last⟩
  rw [HubAndSpoke.reachable_trustPath_iff (GraphBuilder.wellFormed_of_build built) ids_ne,
    hasEdge_toGraph_iff built, hasHub_toGraph_iff built, hasHub_toGraph_iff built, hubs]

/-- What peer-to-peer routing connects, in terms of the document. -/
theorem peerToPeer_reachable_iff {source target : String} (hne : source ≠ target) :
    (PeerToPeer.standard.policy.trustPath g ⟨source⟩ ⟨target⟩).reachable = true ↔
      ∃ n, 1 ≤ n ∧ n ≤ 10 ∧ Hops doc.Relates source n target := by
  have ids_ne : (⟨source⟩ : ProviderId) ≠ ⟨target⟩ := fun heq => hne (ProviderId.mk.inj heq)
  rw [PeerToPeer.reachable_trustPath_iff (GraphBuilder.wellFormed_of_build built) _ ids_ne]
  constructor
  · rintro ⟨n, hle, walk⟩
    have chain := (hops_toGraph_iff built).1 walk
    refine ⟨n, ?_, hle, chain⟩
    -- the chain without relationships leads from a provider to itself only
    by_contra hzero
    obtain rfl : n = 0 := by omega
    cases chain
    exact hne rfl
  · rintro ⟨n, _, hle, chain⟩
    exact ⟨n, hle, (hops_toGraph_iff built).2 chain⟩

/-- In a hub-and-spoke network the document permits what the policy connects. -/
theorem permits_iff_of_hubAndSpoke (topology : doc.topology.name = "hub-and-spoke")
    (source target : String) :
    doc.Permits source target ↔
      (HubAndSpoke.policy.trustPath g ⟨source⟩ ⟨target⟩).reachable = true := by
  by_cases hne : source = target
  · subst hne
    rw [Policy.trustPath_self]
    exact ⟨fun _ => rfl, fun _ => .same (Or.inl topology) rfl⟩
  · rw [hubAndSpoke_reachable_iff built hne]
    constructor
    · intro permits
      cases permits with
      | same _ h => exact False.elim (hne h)
      | direct _ h => exact Or.inl h
      | bridged _ hsource htarget hhub first last =>
        exact Or.inr ⟨hsource, htarget, _, hhub, first, last⟩
      | chained other =>
        rw [topology] at other
        exact absurd other (by decide)
    · rintro (h | ⟨hsource, htarget, hub, hhub, first, last⟩)
      · exact .direct topology h
      · exact .bridged topology hsource htarget hhub first last

/-- In a peer-to-peer network the document permits what the policy connects. -/
theorem permits_iff_of_peerToPeer (topology : doc.topology.name = "peer-to-peer")
    (source target : String) :
    doc.Permits source target ↔
      (PeerToPeer.standard.policy.trustPath g ⟨source⟩ ⟨target⟩).reachable = true := by
  have not_hubAndSpoke : doc.topology.name ≠ "hub-and-spoke" := by
    rw [topology]
    decide
  by_cases hne : source = target
  · subst hne
    rw [Policy.trustPath_self]
    exact ⟨fun _ => rfl, fun _ => .same (Or.inr topology) rfl⟩
  · rw [peerToPeer_reachable_iff built hne]
    constructor
    · intro permits
      cases permits with
      | same _ h => exact False.elim (hne h)
      | direct other => exact False.elim (not_hubAndSpoke other)
      | bridged other => exact False.elim (not_hubAndSpoke other)
      | chained _ hpos hle chain => exact ⟨_, hpos, hle, chain⟩
    · rintro ⟨n, hpos, hle, chain⟩
      exact .chained topology hpos hle chain

/-- A document permits what the policy of its topology connects, and nothing without a policy. -/
theorem permits_iff (source target : String) :
    doc.Permits source target ↔ ∃ p, PolicyRegistry.standard.forGraph? g = some p ∧
      (p.trustPath g ⟨source⟩ ⟨target⟩).reachable = true := by
  have hpolicy := PolicyRegistry.get?_standard doc.topology.name
  rw [PolicyRegistry.forGraph?, topology_of_toGraph built, hpolicy]
  by_cases peer : doc.topology.name = "peer-to-peer"
  · rw [permits_iff_of_peerToPeer built peer, peer]
    simp
  · by_cases spoke : doc.topology.name = "hub-and-spoke"
    · rw [permits_iff_of_hubAndSpoke built spoke, spoke]
      simp
    · rw [beq_false_of_ne peer, beq_false_of_ne spoke]
      constructor
      · intro permits
        cases permits with
        | same served => exact False.elim (served.elim spoke peer)
        | direct other => exact False.elim (spoke other)
        | bridged other => exact False.elim (spoke other)
        | chained other => exact False.elim (peer other)
      · rintro ⟨p, hp, _⟩
        cases hp

end Built

theorem mapM_toGraph {docs : List NetworkDocument}
    (valid : ∀ doc ∈ docs, doc.validate = .ok ()) :
    docs.mapM toGraph = .ok (docs.map fun doc => doc.toBuilder.freeze) := by
  induction docs with
  | nil => rfl
  | cons doc rest ih =>
    have hdoc := toGraph_of_validate (valid doc List.mem_cons_self)
    have hrest := ih fun doc hmem => valid doc (List.mem_cons_of_mem _ hmem)
    rw [List.mapM_cons, hdoc, hrest]
    rfl

end NetworkDocument

namespace FederationGate

/-- A gate permits what the policy of the network's graph connects. -/
theorem isPermitted_iff (gate : FederationGate) (networkId : String) (current home : ProviderId) :
    gate.isPermitted networkId current home = true ↔
      ∃ g, gate.lookup networkId = some g ∧ ∃ p, gate.registry.forGraph? g = some p ∧
        (p.trustPath g current home).reachable = true := by
  rw [isPermitted, check]
  cases gate.lookup networkId with
  | none => simp [PathResult.unreachable]
  | some g =>
    cases hpolicy : gate.registry.forGraph? g with
    | none => simp [hpolicy, PathResult.unreachable]
    | some p => simp [hpolicy]

/-- The graphs of valid documents of distinct networks are built and collected, and the gate over
them permits exactly what one of the documents permits in its network. -/
theorem isPermitted_iff_permits (docs : List NetworkDocument)
    (valid : ∀ doc ∈ docs, doc.validate = .ok ()) (distinct : (docs.map (·.networkId)).Nodup) :
    ∃ graphs snapshots, docs.mapM NetworkDocument.toGraph = .ok graphs ∧
      SnapshotSet.ofGraphs graphs = .ok snapshots ∧ ∀ networkId source target : String,
        (ofSnapshots snapshots .standard).isPermitted networkId ⟨source⟩ ⟨target⟩ = true ↔
          ∃ doc ∈ docs, doc.networkId = networkId ∧ doc.Permits source target := by
  have graphs_distinct :
      ((docs.map fun doc => doc.toBuilder.freeze).map (·.networkId)).Nodup := by
    rw [List.map_map]
    exact distinct
  obtain ⟨snapshots, hsnapshots, hlookup⟩ := SnapshotSet.exists_ofGraphs graphs_distinct
  refine ⟨_, snapshots, NetworkDocument.mapM_toGraph valid, hsnapshots,
    fun networkId source target => ?_⟩
  rw [isPermitted_iff]
  constructor
  · rintro ⟨g, hg, hpermitted⟩
    obtain ⟨hmem, hid⟩ := (hlookup networkId g).1 hg
    obtain ⟨doc, hdoc, rfl⟩ := List.mem_map.1 hmem
    have built := NetworkDocument.toGraph_of_validate (valid doc hdoc)
    exact ⟨doc, hdoc, hid, (NetworkDocument.permits_iff built source target).2 hpermitted⟩
  · rintro ⟨doc, hdoc, hid, permits⟩
    have built := NetworkDocument.toGraph_of_validate (valid doc hdoc)
    refine ⟨_, (hlookup networkId _).2 ⟨List.mem_map_of_mem hdoc, hid⟩, ?_⟩
    exact (NetworkDocument.permits_iff built source target).1 permits

/-- A network in which a hub stands between two spokes. -/
def star : NetworkDocument where
  networkId := "star"
  providers := .ofList [("a", ⟨"https://a", "spoke", {}⟩), ("b", ⟨"https://b", "spoke", {}⟩),
    ("h", ⟨"https://h", "hub", {}⟩)]
  relationships := [⟨"a", "h", .explicit⟩, ⟨"h", "b", .explicit⟩]

/-- A network in which two peers trust each other and one of them trusts a third. -/
def line : NetworkDocument where
  networkId := "line"
  topology := .peerToPeer
  providers := .ofList [("a", ⟨"https://a", "peer", {}⟩), ("b", ⟨"https://b", "peer", {}⟩),
    ("c", ⟨"https://c", "peer", {}⟩)]
  relationships := [⟨"a", "b", .explicit⟩, ⟨"b", "a", .explicit⟩, ⟨"b", "c", .transitive⟩]

/-- The gate of both networks lets logins pass through the hub and along the chain, and knows no
other network. -/
theorem isPermitted_star_line :
    ∃ graphs snapshots, [star, line].mapM NetworkDocument.toGraph = .ok graphs ∧
      SnapshotSet.ofGraphs graphs = .ok snapshots ∧
      (ofSnapshots snapshots .standard).isPermitted "star" ⟨"a"⟩ ⟨"b"⟩ = true ∧
      (ofSnapshots snapshots .standard).isPermitted "line" ⟨"a"⟩ ⟨"c"⟩ = true ∧
      ¬ (ofSnapshots snapshots .standard).isPermitted "ring" ⟨"a"⟩ ⟨"a"⟩ = true := by
  have valid : ∀ doc ∈ [star, line], doc.validate = .ok () := by
    rintro doc hdoc
    rcases List.mem_pair.1 hdoc with rfl | rfl
    · rfl
    · rfl
  obtain ⟨graphs, snapshots, hgraphs, hsnapshots, permitted_iff⟩ :=
    isPermitted_iff_permits [star, line] valid (by decide)
  refine ⟨graphs, snapshots, hgraphs, hsnapshots, ?_, ?_, ?_⟩
  · refine (permitted_iff _ _ _).2 ⟨star, List.mem_cons_self, rfl, ?_⟩
    have not_hub : ∀ id, star.providers.get? id = some ⟨"https://" ++ id, "spoke", {}⟩ →
        ¬ star.IsHub id := by
      rintro id hid ⟨entry, hentry, hrole⟩
      rw [hid] at hentry
      obtain rfl := Option.some.inj hentry
      have spoke_ne_hub : ("spoke" : String) ≠ "hub" := by decide
      exact spoke_ne_hub hrole
    exact .bridged rfl (not_hub "a" rfl) (not_hub "b" rfl) ⟨⟨"https://h", "hub", {}⟩, rfl, rfl⟩
      ⟨_, List.mem_cons_self, rfl, rfl⟩ ⟨_, List.mem_cons_of_mem _ List.mem_cons_self, rfl, rfl⟩
  · refine (permitted_iff _ _ _).2 ⟨line, List.mem_cons_of_mem _ List.mem_cons_self, rfl, ?_⟩
    have chain : Hops line.Relates "a" 2 "c" := by
      refine .step (.step .stay ⟨⟨"a", "b", .explicit⟩, ?_, rfl, rfl⟩)
        ⟨⟨"b", "c", .transitive⟩, ?_, rfl, rfl⟩
      · decide
      · decide
    exact .chained rfl (by decide) (by decide) chain
  · rw [permitted_iff]
    rintro ⟨doc, hdoc, hid, _⟩
    rcases List.mem_pair.1 hdoc with rfl | rfl
    · exact absurd hid (by decide)
    · exact absurd hid (by decide)

end FederationGate

end Federation
