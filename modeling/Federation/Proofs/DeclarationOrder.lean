import Federation.Proofs.BridgingHub
import Federation.Proofs.DepthFirst

/-!
# The order of declarations

Two runs of a builder that add the same providers and declare the same pairs may do so in different
orders. Their graphs list edges in different orders, and a search may find other routes and other
cycles. What is decided stays the same: whether there is a route, how long it is, whether there is a
cycle, and which hub stands between two spokes.
-/

namespace Federation

/-- Two runs add the same providers and declare the same pairs. -/
structure BuilderCall.SameNetwork (calls calls' : List BuilderCall) : Prop where
  adds_iff : ∀ id, Adds calls id ↔ Adds calls' id
  declares_iff : ∀ source target, Declares calls source target ↔ Declares calls' source target

/-- There is one number of hops for all answers without a route. -/
theorem PathResult.hopCount_of_not_reachable {r : PathResult} (h : r.reachable ≠ true) :
    r.hopCount = -1 := by
  rw [hopCount, hops?, if_neg h]

namespace PeerToPeer

/-- Two answers say the same but for the route that they show. -/
structure Alike (answer answer' : PathResult) : Prop where
  reachable_eq : answer.reachable = answer'.reachable
  hopCount_eq : answer.hopCount = answer'.hopCount

/-- Shortest routes in two graphs with the same trust are equally long. -/
theorem Shortest.alike {g g' : TrustGraph} {maxDepth : Nat} {source target : ProviderId}
    {answer answer' : PathResult} (h : Shortest g maxDepth source target answer)
    (h' : Shortest g' maxDepth source target answer') (htrusts : g.Trusts = g'.Trusts) :
    Alike answer answer' := by
  have hreachable : answer.reachable = true ↔ answer'.reachable = true := by
    rw [h.reachable_iff, h'.reachable_iff, htrusts]
  refine ⟨Bool.eq_iff_iff.2 hreachable, ?_⟩
  by_cases hr : answer.reachable = true
  · obtain ⟨hops, hcount, hleast⟩ := h.hopCount_least hr
    obtain ⟨hops', hcount', hleast'⟩ := h'.hopCount_least (hreachable.1 hr)
    rw [← htrusts] at hleast'
    rw [hcount, hcount', hleast.unique hleast']
  · have hr' : answer'.reachable ≠ true := fun hr' => hr (hreachable.2 hr')
    rw [PathResult.hopCount_of_not_reachable hr, PathResult.hopCount_of_not_reachable hr']

end PeerToPeer

namespace HubAndSpoke.Law

variable {calls calls' : List BuilderCall} {source target : ProviderId} {answer answer' : PathResult}

/-- The rules leave no choice. -/
theorem unique (h : Law calls source target answer) (h' : Law calls source target answer') :
    answer = answer' := by
  by_cases declared : BuilderCall.Declares calls source target
  · rw [h.direct declared, h'.direct declared]
  · by_cases hends : BuilderCall.AddsHub calls source ∨ BuilderCall.AddsHub calls target
    · rw [h.hub_end declared hends, h'.hub_end declared hends]
    · obtain ⟨hsource, htarget⟩ := not_or.1 hends
      by_cases hrelays : ∃ hub, Relays calls source target hub
      · obtain ⟨hub, relays, least, -, -, rfl⟩ := h.relayed declared hsource htarget hrelays
        obtain ⟨hub', relays', least', -, -, rfl⟩ := h'.relayed declared hsource htarget hrelays
        have hle : hub ≤ hub' := ProviderId.octets_le_iff.1 (least hub' relays')
        have hge : hub' ≤ hub := ProviderId.octets_le_iff.1 (least' hub relays)
        rw [Std.le_antisymm hle hge]
      · have none_relays := not_exists.1 hrelays
        rw [h.unrelayed declared none_relays, h'.unrelayed declared none_relays]

theorem congr (same : BuilderCall.SameNetwork calls calls')
    (hubs : ∀ id, BuilderCall.AddsHub calls id ↔ BuilderCall.AddsHub calls' id)
    (h : Law calls source target answer) : Law calls' source target answer := by
  have hrelays : ∀ hub, Relays calls source target hub ↔ Relays calls' source target hub := by
    intro hub
    rw [Relays, Relays, hubs, same.declares_iff, same.declares_iff]
  obtain ⟨direct, hub_end, relayed, unrelayed, hopCount_le, not_chained⟩ := h
  simp only [hrelays, hubs, same.declares_iff] at direct hub_end relayed unrelayed not_chained
  exact ⟨direct, hub_end, relayed, unrelayed, hopCount_le, not_chained⟩

end HubAndSpoke.Law

namespace GraphBuilder

section SameNetwork

variable {networkId networkId' : String} {calls calls' : List BuilderCall} {g g' : TrustGraph}
  (built : (run networkId calls).build = .ok g) (built' : (run networkId' calls').build = .ok g')
  (same : BuilderCall.SameNetwork calls calls')
include built built' same

theorem contains_congr (id : ProviderId) : g.contains id = true ↔ g'.contains id = true := by
  rw [contains_run_iff built, contains_run_iff built', same.adds_iff]

theorem trusts_congr : g.Trusts = g'.Trusts := by
  funext source target
  have hedge : g.hasEdge source target = true ↔ g'.hasEdge source target = true := by
    rw [hasEdge_run_iff built, hasEdge_run_iff built', same.declares_iff]
  have trusts : g.hasEdge source target = true ↔ g.Trusts source target :=
    (wellFormed_of_build built).hasEdge_iff
  have trusts' : g'.hasEdge source target = true ↔ g'.Trusts source target :=
    (wellFormed_of_build built').hasEdge_iff
  exact propext (trusts.symm.trans (hedge.trans trusts'))

/-- Answers agree as far as routes between providers do, as all other answers are equal. -/
theorem trustPath_congr {p : Policy} {Agree : PathResult → PathResult → Prop}
    (refl : ∀ answer, Agree answer answer)
    (route : ∀ s t s' t', g.node? s.id = some s → g.node? t.id = some t →
      g'.node? s'.id = some s' → g'.node? t'.id = some t' → s.id = s'.id → t.id = t'.id →
      Agree (p.route g s t) (p.route g' s' t')) (source target : ProviderId) :
    Agree (p.trustPath g source target) (p.trustPath g' source target) := by
  have wf := wellFormed_of_build built
  have wf' := wellFormed_of_build built'
  have hfound := and_congr (contains_congr built built' same source)
    (contains_congr built built' same target)
  by_cases hne : source = target
  · subst hne
    rw [p.trustPath_self, p.trustPath_self]
    exact refl _
  · by_cases found : g.contains source = true ∧ g.contains target = true
    · obtain ⟨s, t, hs, ht, hnode_s, hnode_t, hroute⟩ := Policy.exists_route wf hne found
      obtain ⟨s', t', hs', ht', hnode_s', hnode_t', hroute'⟩ :=
        Policy.exists_route wf' hne (hfound.1 found)
      rw [hroute p, hroute' p]
      exact route s t s' t' hnode_s hnode_t hnode_s' hnode_t' (hs ▸ hs') (ht ▸ ht')
    · rw [p.trustPath_of_missing wf hne found,
        p.trustPath_of_missing wf' hne fun h => found (hfound.2 h)]
      exact refl _

theorem peerToPeer_congr (source target : ProviderId) (maxDepth : Nat) :
    PeerToPeer.Alike ((PeerToPeer.mk maxDepth).policy.trustPath g source target)
      ((PeerToPeer.mk maxDepth).policy.trustPath g' source target) := by
  refine trustPath_congr built built' same (fun answer => ⟨rfl, rfl⟩) ?_ source target
  intro s t s' t' hs ht hs' ht' hsource htarget
  have shortest := PeerToPeer.shortest_route (wellFormed_of_build built) ⟨maxDepth⟩ hs ht
  have shortest' := PeerToPeer.shortest_route (wellFormed_of_build built') ⟨maxDepth⟩ hs' ht'
  rw [hsource, htarget] at shortest
  exact shortest.alike shortest' (trusts_congr built built' same)

theorem isSome_findCycle_congr : g.findCycle.isSome = g'.findCycle.isSome := by
  rw [Bool.eq_iff_iff, TrustGraph.isSome_findCycle_iff (wellFormed_of_build built),
    TrustGraph.isSome_findCycle_iff (wellFormed_of_build built'), trusts_congr built built' same]

theorem hubAndSpoke_congr
    (hubs : ∀ id, BuilderCall.AddsHub calls id ↔ BuilderCall.AddsHub calls' id)
    (source target : ProviderId) : HubAndSpoke.policy.trustPath g source target =
      HubAndSpoke.policy.trustPath g' source target := by
  refine trustPath_congr built built' same (fun answer => rfl) ?_ source target
  intro s t s' t' hs ht hs' ht' hsource htarget
  have law := HubAndSpoke.law_route built hs ht
  have law' := HubAndSpoke.law_route built' hs' ht'
  rw [hsource, htarget] at law
  exact (law.congr same hubs).unique law'

end SameNetwork

/-- Runs that add the same providers and declare the same pairs build graphs on which the same is
decided, in whatever order and with whatever else they say it. -/
theorem same_decisions (networkId networkId' : String) (calls calls' : List BuilderCall)
    (g g' : TrustGraph) (built : (run networkId calls).build = .ok g)
    (built' : (run networkId' calls').build = .ok g')
    (same : BuilderCall.SameNetwork calls calls') :
    (∀ source target maxDepth,
      PeerToPeer.Alike ((PeerToPeer.mk maxDepth).policy.trustPath g source target)
        ((PeerToPeer.mk maxDepth).policy.trustPath g' source target)) ∧
      g.findCycle.isSome = g'.findCycle.isSome ∧
      ((∀ id, BuilderCall.AddsHub calls id ↔ BuilderCall.AddsHub calls' id) →
        ∀ source target, HubAndSpoke.policy.trustPath g source target =
          HubAndSpoke.policy.trustPath g' source target) := by
  refine ⟨?_, ?_, ?_⟩
  · intro source target maxDepth
    exact peerToPeer_congr built built' same source target maxDepth
  · exact isSome_findCycle_congr built built' same
  · intro hubs source target
    exact hubAndSpoke_congr built built' same hubs source target

/-- Two hubs between two providers, one of which trusts the other. -/
def inOrder : List BuilderCall :=
  [.addProvider ⟨"a"⟩ "https://a" .spoke, .addProvider ⟨"b"⟩ "https://b" .hub,
    .addProvider ⟨"c"⟩ "https://c" .hub, .addProvider ⟨"d"⟩ "https://d" .spoke,
    .addTrust ⟨"a"⟩ ⟨"b"⟩ .explicit, .addTrust ⟨"a"⟩ ⟨"c"⟩ .explicit,
    .addTrust ⟨"b"⟩ ⟨"d"⟩ .explicit, .addTrust ⟨"c"⟩ ⟨"d"⟩ .explicit,
    .addTrust ⟨"d"⟩ ⟨"a"⟩ .explicit]

/-- The same network in another order, with pairs that are declared twice. -/
def outOfOrder : List BuilderCall :=
  [.addTrust ⟨"d"⟩ ⟨"a"⟩ .transitive, .addTrust ⟨"a"⟩ ⟨"c"⟩ .transitive,
    .addProviderNode ⟨⟨"d"⟩, "https://d.example", .peer, {}⟩, .setVersion "2",
    .addTrust ⟨"a"⟩ ⟨"b"⟩ .explicit, .addTrust ⟨"a"⟩ ⟨"c"⟩ .explicit,
    .addProvider ⟨"c"⟩ "https://c.example" .hub, .setTopology .peerToPeer,
    .addTrust ⟨"c"⟩ ⟨"d"⟩ .explicit, .addTrust ⟨"b"⟩ ⟨"d"⟩ .transitive,
    .addProvider ⟨"b"⟩ "https://b.example" .hub, .insertMetadata "region" "eu",
    .addProvider ⟨"a"⟩ "https://a.example" .peer]

def inOrderGraph : TrustGraph :=
  (run "first" inOrder).freeze

def outOfOrderGraph : TrustGraph :=
  (run "second" outOfOrder).freeze

theorem sameNetwork_outOfOrder : BuilderCall.SameNetwork inOrder outOfOrder where
  adds_iff id := by
    simp only [BuilderCall.Adds, inOrder, outOfOrder, BuilderCall.provider?, List.filterMap_cons,
      List.filterMap_nil, List.exists_mem_cons_iff, List.not_mem_nil, false_and, exists_false]
    tauto
  declares_iff source target := by
    simp only [BuilderCall.Declares, inOrder, outOfOrder, List.mem_cons, List.not_mem_nil,
      BuilderCall.addTrust.injEq, reduceCtorEq, or_false, false_or]
    grind

/-- The route over one hub is the same in both networks, and the shortest chain is not. -/
theorem same_decisions_outOfOrder :
    (run "first" inOrder).build = .ok inOrderGraph ∧
      (run "second" outOfOrder).build = .ok outOfOrderGraph ∧
      BuilderCall.SameNetwork inOrder outOfOrder ∧
      PeerToPeer.Alike (PeerToPeer.standard.policy.trustPath inOrderGraph ⟨"a"⟩ ⟨"d"⟩)
        (PeerToPeer.standard.policy.trustPath outOfOrderGraph ⟨"a"⟩ ⟨"d"⟩) ∧
      PeerToPeer.standard.policy.trustPath inOrderGraph ⟨"a"⟩ ⟨"d"⟩ ≠
        PeerToPeer.standard.policy.trustPath outOfOrderGraph ⟨"a"⟩ ⟨"d"⟩ ∧
      inOrderGraph.findCycle.isSome = outOfOrderGraph.findCycle.isSome ∧
      inOrderGraph.findCycle ≠ outOfOrderGraph.findCycle ∧
      (∀ id, BuilderCall.AddsHub inOrder id ↔ BuilderCall.AddsHub outOfOrder id) ∧
      HubAndSpoke.policy.trustPath inOrderGraph ⟨"a"⟩ ⟨"d"⟩ =
        HubAndSpoke.policy.trustPath outOfOrderGraph ⟨"a"⟩ ⟨"d"⟩ ∧
      (HubAndSpoke.policy.trustPath outOfOrderGraph ⟨"a"⟩ ⟨"d"⟩).path =
        [⟨"a"⟩, ⟨"b"⟩, ⟨"d"⟩] := by
  have built : (run "first" inOrder).build = .ok inOrderGraph := rfl
  have built' : (run "second" outOfOrder).build = .ok outOfOrderGraph := rfl
  have hubs : ∀ id, BuilderCall.AddsHub inOrder id ↔ BuilderCall.AddsHub outOfOrder id := by
    intro id
    simp only [BuilderCall.AddsHub, inOrder, outOfOrder, BuilderCall.provider?,
      List.filterMap_cons, List.filterMap_nil, List.exists_mem_cons_iff, List.not_mem_nil,
      false_and, exists_false, reduceCtorEq, and_false, and_true, false_or]
    tauto
  obtain ⟨alike, hcycle, hroute⟩ := same_decisions "first" "second" inOrder outOfOrder inOrderGraph
    outOfOrderGraph built built' sameNetwork_outOfOrder
  exact ⟨built, built', sameNetwork_outOfOrder, alike _ _ _, by decide +kernel, hcycle,
    by decide +kernel, hubs, hroute hubs _ _, by decide +kernel⟩

end GraphBuilder

end Federation
