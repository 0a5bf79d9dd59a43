import Federation.Proofs.QueryAnswers

/-!
# Lengths of routes

How far apart two providers are can be said of a graph without any search: by its walks for
peer-to-peer routing, by its edges and hubs for hub-and-spoke routing. A built-in policy answers
within a number of hops exactly when the two providers are no further apart than that.
-/

namespace Federation

namespace PathResult

/-- The result is a route of at most so many hops. -/
def Within (r : PathResult) (hops : Nat) : Prop :=
  r.reachable = true ∧ r.hopCount ≤ hops

theorem exists_hopCount_eq {r : PathResult} (h : r.reachable = true) :
    ∃ hops : Nat, r.hopCount = hops := by
  refine ⟨r.path.length - 1, ?_⟩
  rw [hopCount, hops?, if_pos h]

/-- A result that is within every bound of another one is a route that is no longer. -/
theorem shorter_of_within {r r' : PathResult} (h : ∀ hops, r.Within hops → r'.Within hops)
    (reachable : r.reachable = true) : r'.reachable = true ∧ r'.hopCount ≤ r.hopCount := by
  obtain ⟨hops, hcount⟩ := exists_hopCount_eq reachable
  obtain ⟨reachable', hle⟩ := h hops ⟨reachable, Int.le_of_eq hcount⟩
  exact ⟨reachable', by omega⟩

/-- The bounds of a result whose number of hops is the least of some numbers, if there are any. -/
theorem within_iff {r : PathResult} {P : Nat → Prop} (complete : ∀ n, P n → r.reachable = true)
    (least : r.reachable = true → ∃ n : Nat, r.hopCount = n ∧ IsLeast {n | P n} n) {hops : Nat} :
    r.Within hops ↔ ∃ n ≤ hops, P n := by
  constructor
  · rintro ⟨reachable, hle⟩
    obtain ⟨n, hcount, hn, -⟩ := least reachable
    exact ⟨n, by omega, hn⟩
  · rintro ⟨m, hle, hm⟩
    have reachable := complete m hm
    obtain ⟨n, hcount, -, hleast⟩ := least reachable
    have : n ≤ m := hleast hm
    exact ⟨reachable, by omega⟩

end PathResult

namespace HubAndSpoke

/-- The rules of hub-and-spoke networks lead from one provider to another over so many edges. -/
inductive Connects (g : TrustGraph) : ProviderId → ProviderId → Nat → Prop where
  | same (id : ProviderId) : Connects g id id 0
  | direct {source target : ProviderId} (edge : g.hasEdge source target = true) :
      Connects g source target 1
  | relayed {source hub target : ProviderId} (hsource : ¬ g.HasHub source)
      (htarget : ¬ g.HasHub target) (hhub : g.HasHub hub) (first : g.hasEdge source hub = true)
      (last : g.hasEdge hub target = true) : Connects g source target 2

namespace Connects

variable {g : TrustGraph} {source target : ProviderId} {n : Nat}

theorem le_two (h : Connects g source target n) : n ≤ 2 := by
  cases h <;> decide

theorem pos (h : Connects g source target n) (hne : source ≠ target) : 1 ≤ n := by
  cases h with
  | same => exact absurd rfl hne
  | direct => decide
  | relayed => decide

theorem two_le (h : Connects g source target n) (hne : source ≠ target)
    (hedge : g.hasEdge source target = false) : 2 ≤ n := by
  cases h with
  | same => exact absurd rfl hne
  | direct edge =>
    rw [hedge] at edge
    cases edge
  | relayed => decide

theorem reachable (wf : g.WellFormed) (h : Connects g source target n) :
    (policy.trustPath g source target).reachable = true := by
  by_cases hne : source = target
  · subst hne
    rw [Policy.trustPath_self]
    rfl
  · apply (reachable_trustPath_iff wf hne).2
    cases h with
    | same => exact absurd rfl hne
    | direct edge => exact Or.inl edge
    | relayed hsource htarget hhub first last =>
      exact Or.inr ⟨hsource, htarget, _, hhub, first, last⟩

end Connects

theorem connects_of_bridges {g : TrustGraph} (wf : g.WellFormed) {source target hub : ProviderNode}
    (hsource : g.node? source.id = some source) (htarget : g.node? target.id = some target)
    (source_spoke : source.role.isHub = false) (target_spoke : target.role.isHub = false)
    (bridges : Bridges g source.id target.id hub) : Connects g source.id target.id 2 := by
  have no_hub : ∀ {node : ProviderNode}, g.node? node.id = some node → node.role.isHub = false →
      ¬ g.HasHub node.id := by
    intro node hnode spoke
    rw [TrustGraph.hasHub_iff_of_node? hnode, spoke]
    exact Bool.false_ne_true
  obtain ⟨hmem, first, last⟩ := bridges
  obtain ⟨hnode, hrole⟩ := wf.mem_hubs_iff_node?.1 hmem
  exact .relayed (no_hub hsource source_spoke) (no_hub htarget target_spoke) ⟨hub, hnode, hrole⟩
    first last

/-- The first rule that leads to the target decides the length of the route. -/
theorem exists_least {g : TrustGraph} (wf : g.WellFormed) {source target : ProviderId}
    (reachable : (policy.trustPath g source target).reachable = true) :
    ∃ n : Nat, (policy.trustPath g source target).hopCount = n ∧
      IsLeast {n | Connects g source target n} n := by
  by_cases hne : source = target
  · subst hne
    rw [Policy.trustPath_self]
    exact ⟨0, rfl, .same source, fun n _ => Nat.zero_le n⟩
  · rcases Policy.trustPath_cases wf hne with ⟨s, t, rfl, rfl, hs, ht, hroute⟩ | ⟨-, hmissing⟩
    · have hpolicy : policy.trustPath g s.id t.id = route g s t := hroute policy
      rw [hpolicy] at reachable ⊢
      rcases route_cases g s t with ⟨edge, h⟩ | ⟨hub, hedge, hhs, hht, hbridge, h⟩ | ⟨-, -, h⟩
      · rw [h]
        exact ⟨1, rfl, .direct edge, fun n hn => hn.pos hne⟩
      · rw [h]
        have bridges := bridges_of_bridgingHub? hbridge
        have relayed := connects_of_bridges wf hs ht hhs hht bridges
        exact ⟨2, rfl, relayed, fun n hn => hn.two_le hne hedge⟩
      · rw [h] at reachable
        cases reachable
    · rw [hmissing policy] at reachable
      cases reachable

/-- Hub-and-spoke routing answers within so many hops as its rules need. -/
theorem within_trustPath_iff {g : TrustGraph} (wf : g.WellFormed) {source target : ProviderId}
    {hops : Nat} : (policy.trustPath g source target).Within hops ↔
      ∃ n ≤ hops, Connects g source target n :=
  PathResult.within_iff (fun _ h => h.reachable wf) (exists_least wf)

end HubAndSpoke

namespace PeerToPeer

variable {g : TrustGraph} (wf : g.WellFormed) (p : PeerToPeer)
include wf

theorem reachable_of_hops {source target : ProviderId} {n : Nat}
    (h : n ≤ p.maxDepth ∧ Hops g.Trusts source n target) :
    (p.policy.trustPath g source target).reachable = true := by
  by_cases hne : source = target
  · subst hne
    rw [Policy.trustPath_self]
    rfl
  · exact (reachable_trustPath_iff wf p hne).2 ⟨n, h⟩

theorem exists_least {source target : ProviderId}
    (reachable : (p.policy.trustPath g source target).reachable = true) :
    ∃ n : Nat, (p.policy.trustPath g source target).hopCount = n ∧
      IsLeast {n | n ≤ p.maxDepth ∧ Hops g.Trusts source n target} n := by
  by_cases hne : source = target
  · subst hne
    rw [Policy.trustPath_self]
    exact ⟨0, rfl, ⟨Nat.zero_le _, .stay⟩, fun n _ => Nat.zero_le n⟩
  · obtain ⟨m, hm, walk⟩ := (reachable_trustPath_iff wf p hne).1 reachable
    rcases Policy.trustPath_cases wf hne with ⟨s, t, rfl, rfl, hs, ht, hroute⟩ | ⟨-, hmissing⟩
    · rw [hroute p.policy] at reachable ⊢
      obtain ⟨n, hcount, hn, least⟩ := (shortest_route wf p hs ht).hopCount_least reachable
      have hle : n ≤ m := least walk
      exact ⟨n, hcount, ⟨by omega, hn⟩, fun k hk => least hk.2⟩
    · rw [hmissing p.policy] at reachable
      cases reachable

/-- Peer-to-peer routing answers within so many hops as a walk needs that keeps to the bound. -/
theorem within_trustPath_iff {source target : ProviderId} {hops : Nat} :
    (p.policy.trustPath g source target).Within hops ↔
      ∃ n ≤ hops, n ≤ p.maxDepth ∧ Hops g.Trusts source n target :=
  PathResult.within_iff (fun _ => reachable_of_hops wf p) (exists_least wf p)

end PeerToPeer

end Federation
