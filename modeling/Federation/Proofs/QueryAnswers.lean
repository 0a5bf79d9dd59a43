import Federation.Proofs.HubAndSpokeRoute
import Federation.Proofs.PeerToPeerRoute

/-!
# Answers to queries

Every query gets an answer, whatever of it is absent, unknown or equal. An answer of the built-in
policies is a route of the graph or none, and the results that say so contradict themselves nowhere.
-/

namespace Federation

/-- The policies of the two topologies; peer-to-peer routing may have any depth bound. -/
inductive Policy.BuiltIn : Policy → Prop where
  | hubAndSpoke : BuiltIn HubAndSpoke.policy
  | peerToPeer (p : PeerToPeer) : BuiltIn p.policy

namespace PathResult

/-- What every answer to a query keeps to. -/
structure Answers (g : Option TrustGraph) (source target : Option ProviderId) (r : PathResult) :
    Prop where
  source_eq : r.source = source.getD .unknown
  target_eq : r.target = target.getD .unknown
  reachable_iff_path : r.reachable = true ↔ r.path ≠ []
  reachable_iff_hops : r.reachable = true ↔ r.hops?.isSome = true
  reachable_iff_hopCount : r.reachable = true ↔ r.hopCount ≠ -1
  /-- A reachable target has a route of the graph, from provider to distinct provider. -/
  route : r.reachable = true →
    ∃ h, g = some h ∧ Route (fun a b => h.hasEdge a b = true) r.source r.target r.path
  hopCount_eq : r.reachable = true → r.hopCount = r.path.length - 1
  /-- What is asserted whenever a result is made. -/
  wellFormed : r.WellFormed

theorem Answers.unreachable (g : Option TrustGraph) (source target : Option ProviderId) :
    Answers g source target (.unreachable (source.getD .unknown) (target.getD .unknown)) where
  source_eq := rfl
  target_eq := rfl
  reachable_iff_path := by simp [PathResult.unreachable]
  reachable_iff_hops := Iff.rfl
  reachable_iff_hopCount :=
    ⟨fun h => False.elim (Bool.false_ne_true h), fun h => False.elim (h rfl)⟩
  route h := False.elim (Bool.false_ne_true h)
  hopCount_eq h := False.elim (Bool.false_ne_true h)
  wellFormed := ⟨fun h => False.elim (Bool.false_ne_true h), fun _ => rfl⟩

theorem hopCount_along {source target : ProviderId} {path : List ProviderId} (h : path ≠ []) :
    (along source target path).hopCount = path.length - 1 := by
  have hpos : 0 < path.length := List.length_pos_iff.2 h
  have hcount : (along source target path).hopCount = (path.length - 1 : Nat) := rfl
  rw [hcount]
  omega

theorem Answers.along {g : TrustGraph} {source target : ProviderId} {path : List ProviderId}
    (route : Route (fun a b => g.hasEdge a b = true) source target path) :
    Answers (some g) (some source) (some target) (.along source target path) where
  source_eq := rfl
  target_eq := rfl
  reachable_iff_path := ⟨fun _ => route.ne_nil, fun _ => rfl⟩
  reachable_iff_hops := ⟨fun _ => rfl, fun _ => rfl⟩
  reachable_iff_hopCount := by
    refine ⟨fun _ => ?_, fun _ => rfl⟩
    have hpos : 0 < path.length := List.length_pos_iff.2 route.ne_nil
    rw [hopCount_along route.ne_nil]
    omega
  route _ := ⟨g, rfl, route⟩
  hopCount_eq _ := hopCount_along route.ne_nil
  wellFormed := ⟨fun _ => ⟨route.head, route.last⟩, fun h => False.elim (Bool.false_ne_true h.symm)⟩

end PathResult

namespace Policy

/-- Between two distinct providers a built-in policy answers with a route or with none. -/
theorem BuiltIn.route_answers {p : Policy} (builtIn : p.BuiltIn) {g : TrustGraph}
    (wf : g.WellFormed) {source target : ProviderNode} (hsource : g.node? source.id = some source)
    (htarget : g.node? target.id = some target) (distinct : source.id ≠ target.id) :
    PathResult.Answers (some g) (some source.id) (some target.id) (p.route g source target) := by
  cases builtIn with
  | hubAndSpoke =>
    change PathResult.Answers _ _ _ (HubAndSpoke.route g source target)
    rcases HubAndSpoke.route_answers wf hsource htarget distinct with
      hroute | ⟨path, hroute, route⟩
    · rw [hroute]
      exact .unreachable (some g) (some source.id) (some target.id)
    · rw [hroute]
      exact .along route
  | peerToPeer p =>
    change PathResult.Answers _ _ _ (p.route g source target)
    rcases PeerToPeer.route_cases wf p hsource htarget with
      ⟨hroute, -⟩ | ⟨path, hroute, route, -⟩
    · rw [hroute]
      exact .unreachable (some g) (some source.id) (some target.id)
    · rw [hroute]
      exact .along (route.imp fun _ _ edge => wf.hasEdge_iff.2 edge)

/-- A built-in policy answers with a route or with none, whatever it is asked of a graph. -/
theorem BuiltIn.trustPath_answers {p : Policy} (builtIn : p.BuiltIn) {g : TrustGraph}
    (wf : g.WellFormed) (source target : ProviderId) :
    PathResult.Answers (some g) (some source) (some target) (p.trustPath g source target) := by
  by_cases hne : source = target
  · subst hne
    rw [trustPath_self]
    exact .along (.single source)
  · rcases trustPath_cases wf hne with ⟨s, t, rfl, rfl, hs, ht, hroute⟩ | ⟨-, hunreachable⟩
    · rw [hroute p]
      exact builtIn.route_answers wf hs ht hne
    · rw [hunreachable p]
      exact .unreachable (some g) (some source) (some target)

/-- Whatever is asked of a built graph, or of none, the built-in policies give a sound answer, and
no policy at all is asked for more than the route between two distinct providers of the graph. -/
theorem query_answers (g : Option TrustGraph)
    (built : ∀ h, g = some h → ∃ b : GraphBuilder, b.build = .ok h)
    (source target : Option ProviderId) :
    (∀ p : Policy, p.BuiltIn → PathResult.Answers g source target (p.query g source target)) ∧
      ∃ answer, Settled g source target answer ∧
        ∀ p : Policy, p.query g source target = answer p := by
  have wf : ∀ h, g = some h → h.WellFormed := by
    intro h hg
    obtain ⟨b, hb⟩ := built h hg
    exact GraphBuilder.wellFormed_of_build hb
  obtain ⟨answer, settled, hquery⟩ := exists_settled wf source target
  refine ⟨fun p builtIn => ?_, answer, settled, hquery⟩
  rw [hquery p]
  cases settled with
  | absent h => exact .unreachable _ _ _
  | same g id => exact .along (.single id)
  | missing distinct h => exact .unreachable _ _ _
  | routed distinct hsource htarget =>
    exact builtIn.route_answers (wf _ rfl) hsource htarget distinct

/-- The ring of peers and the provider behind it, asked with both of the policies. -/
theorem query_ring :
    PathResult.Answers (some PeerToPeer.ring.freeze) (some ⟨"a"⟩) (some ⟨"d"⟩)
        (PeerToPeer.standard.policy.trustPath PeerToPeer.ring.freeze ⟨"a"⟩ ⟨"d"⟩) ∧
      PeerToPeer.standard.policy.trustPath PeerToPeer.ring.freeze ⟨"a"⟩ ⟨"d"⟩ =
        .along ⟨"a"⟩ ⟨"d"⟩ [⟨"a"⟩, ⟨"b"⟩, ⟨"c"⟩, ⟨"d"⟩] ∧
      PathResult.Answers (some PeerToPeer.ring.freeze) (some ⟨"a"⟩) none
        (HubAndSpoke.policy.query (some PeerToPeer.ring.freeze) (some ⟨"a"⟩) none) ∧
      ∃ answer, Settled (some PeerToPeer.ring.freeze) (some ⟨"a"⟩) (some ⟨"d"⟩) answer ∧
        ∀ p : Policy, p.trustPath PeerToPeer.ring.freeze ⟨"a"⟩ ⟨"d"⟩ = answer p := by
  have built : ∀ h, some PeerToPeer.ring.freeze = some h →
      ∃ b : GraphBuilder, b.build = .ok h := by
    intro h heq
    obtain rfl := Option.some.inj heq
    exact ⟨PeerToPeer.ring, rfl⟩
  have both := query_answers (some PeerToPeer.ring.freeze) built (some ⟨"a"⟩) (some ⟨"d"⟩)
  have absent := query_answers (some PeerToPeer.ring.freeze) built (some ⟨"a"⟩) none
  exact ⟨both.1 _ (.peerToPeer .standard), by decide +kernel, absent.1 _ .hubAndSpoke, both.2⟩

end Policy

end Federation
