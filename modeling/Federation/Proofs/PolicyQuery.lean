import Federation.Policy.Basic
import Federation.Proofs.GraphRepresentation

/-!
# What policies share

A query is settled without its policy unless it asks for the route between two distinct providers of
a graph. A policy is never asked for more than that, whatever it does with it.
-/

namespace Federation

theorem TrustGraph.contains_iff_exists {g : TrustGraph} {id : ProviderId} :
    g.contains id = true ↔ ∃ node, g.node? id = some node :=
  Option.isSome_iff_exists

namespace Policy

/-- A provider reaches itself, even one that the graph does not have. -/
theorem trustPath_self (p : Policy) (g : TrustGraph) (id : ProviderId) :
    p.trustPath g id id = .along id id [id] := by
  rw [trustPath, query, if_pos rfl, PathResult.trivial]

/-- Between two distinct providers of a graph the answer is left to the policy. Without both of them
nothing is. -/
theorem trustPath_cases {g : TrustGraph} (wf : g.WellFormed) {source target : ProviderId}
    (hne : source ≠ target) :
    (∃ s t, source = s.id ∧ target = t.id ∧ g.node? s.id = some s ∧ g.node? t.id = some t ∧
      ∀ p : Policy, p.trustPath g source target = p.route g s t) ∨
    ¬ (g.contains source = true ∧ g.contains target = true) ∧
      ∀ p : Policy, p.trustPath g source target = .unreachable source target := by
  rw [TrustGraph.contains_iff_exists, TrustGraph.contains_iff_exists]
  cases hs : g.node? source with
  | none => exact Or.inr ⟨by simp, fun p => by simp [trustPath, query, hne, hs]⟩
  | some s =>
    cases ht : g.node? target with
    | none => exact Or.inr ⟨by simp, fun p => by simp [trustPath, query, hne, hs, ht]⟩
    | some t =>
      obtain rfl := wf.keyed source s hs
      obtain rfl := wf.keyed target t ht
      exact Or.inl ⟨s, t, rfl, rfl, hs, ht, fun p => by simp [trustPath, query, hne, hs, ht]⟩

/-- Between two distinct providers of a graph the answer is a route of the policy. -/
theorem exists_route {g : TrustGraph} (wf : g.WellFormed) {source target : ProviderId}
    (hne : source ≠ target) (found : g.contains source = true ∧ g.contains target = true) :
    ∃ s t, source = s.id ∧ target = t.id ∧ g.node? s.id = some s ∧ g.node? t.id = some t ∧
      ∀ p : Policy, p.trustPath g source target = p.route g s t :=
  (trustPath_cases wf hne).resolve_right fun h => h.1 found

theorem trustPath_of_missing {g : TrustGraph} (wf : g.WellFormed) {source target : ProviderId}
    (hne : source ≠ target) (missing : ¬ (g.contains source = true ∧ g.contains target = true))
    (p : Policy) : p.trustPath g source target = .unreachable source target := by
  rcases trustPath_cases wf hne with ⟨s, t, rfl, rfl, hs, ht, -⟩ | ⟨-, hunreachable⟩
  · have found := TrustGraph.contains_iff_exists.2 ⟨s, hs⟩
    have found' := TrustGraph.contains_iff_exists.2 ⟨t, ht⟩
    exact absurd ⟨found, found'⟩ missing
  · exact hunreachable p

/-- How a query comes to its answer, as a function of the policy. Only the last way asks the
policy. -/
inductive Settled : Option TrustGraph → Option ProviderId → Option ProviderId →
    (Policy → PathResult) → Prop where
  | absent {g : Option TrustGraph} {source target : Option ProviderId}
      (h : g = none ∨ source = none ∨ target = none) :
      Settled g source target fun _ => .unreachable (source.getD .unknown) (target.getD .unknown)
  | same (g : TrustGraph) (id : ProviderId) :
      Settled (some g) (some id) (some id) fun _ => .along id id [id]
  | missing {g : TrustGraph} {source target : ProviderId} (distinct : source ≠ target)
      (h : g.contains source = false ∨ g.contains target = false) :
      Settled (some g) (some source) (some target) fun _ => .unreachable source target
  | routed {g : TrustGraph} {source target : ProviderNode} (distinct : source.id ≠ target.id)
      (hsource : g.node? source.id = some source) (htarget : g.node? target.id = some target) :
      Settled (some g) (some source.id) (some target.id) fun p => p.route g source target

/-- Every query is settled in the same way for all policies. -/
theorem exists_settled {g : Option TrustGraph} (wf : ∀ h, g = some h → h.WellFormed)
    (source target : Option ProviderId) :
    ∃ answer, Settled g source target answer ∧
      ∀ p : Policy, p.query g source target = answer p := by
  cases g with
  | none => exact ⟨_, .absent (Or.inl rfl), fun _ => rfl⟩
  | some g =>
    cases source with
    | none => exact ⟨_, .absent (Or.inr (Or.inl rfl)), fun _ => rfl⟩
    | some source =>
      cases target with
      | none => exact ⟨_, .absent (Or.inr (Or.inr rfl)), fun _ => rfl⟩
      | some target =>
        by_cases hne : source = target
        · subst hne
          exact ⟨_, .same g source, fun p => p.trustPath_self g source⟩
        · rcases trustPath_cases (wf g rfl) hne with
            ⟨s, t, rfl, rfl, hs, ht, hroute⟩ | ⟨missing, hunreachable⟩
          · exact ⟨_, .routed hne hs ht, hroute⟩
          · have missing : g.contains source = false ∨ g.contains target = false := by
              simpa only [Bool.not_eq_true] using not_and_or.1 missing
            exact ⟨_, .missing hne missing, hunreachable⟩

end Policy

end Federation
