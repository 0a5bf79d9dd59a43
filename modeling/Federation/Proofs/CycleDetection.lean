import Federation.Proofs.DepthFirst

/-!
# Cycle detection

The search for a cycle is a loop over the roots around a loop that looks at edges, neither of which
counts its steps. Both come to an end on every graph, and what they find is a cycle whenever there
is one.
-/

namespace Federation

namespace Walk

/-- A walk goes on, without a bound on its steps, until its stack is empty or a cycle is closed. -/
inductive Ends (adj : Adjacency) : Walk → List Nat ⊕ Walk → Prop where
  | empty {w : Walk} (h : w.stack = []) : Ends adj w (.inr w)
  | cycle {w : Walk} {c : List Nat} (hne : w.stack ≠ []) (h : step adj w = .inl c) :
      Ends adj w (.inl c)
  | later {w w' : Walk} {result : List Nat ⊕ Walk} (hne : w.stack ≠ [])
      (h : step adj w = .inr w') (rest : Ends adj w' result) : Ends adj w result

/-- Walks begin at one root after another, unless an earlier walk has come there, until one of them
closes a cycle. -/
inductive Searches (adj : Adjacency) : List Nat → Walk → Option (List Nat) → Prop where
  | nothing {w : Walk} : Searches adj [] w none
  | visited {root : Nat} {roots : List Nat} {w : Walk} {found : Option (List Nat)}
      (h : w.mark root ≠ .unvisited) (rest : Searches adj roots w found) :
      Searches adj (root :: roots) w found
  | cycle {root : Nat} {roots : List Nat} {w : Walk} {c : List Nat}
      (h : w.mark root = .unvisited) (walk : Ends adj (w.push adj root) (.inl c)) :
      Searches adj (root :: roots) w (some c)
  | passed {root : Nat} {roots : List Nat} {w w' : Walk} {found : Option (List Nat)}
      (h : w.mark root = .unvisited) (walk : Ends adj (w.push adj root) (.inr w'))
      (rest : Searches adj roots w' found) : Searches adj (root :: roots) w found

/-- A walk with more steps than remain to it comes to its end in them. -/
theorem ends_run {adj : Adjacency} (closed : adj.Closed) {fuel : Nat} {finished : List Nat}
    {w : Walk} (h : Invariant adj finished none w) (enough : w.remaining adj < fuel) :
    Ends adj w (run adj fuel w) := by
  induction fuel generalizing finished w with
  | zero => exact absurd enough (Nat.not_lt_zero _)
  | succ fuel ih =>
    by_cases hne : w.stack = []
    · rw [run, if_pos (by simp [hne])]
      exact .empty hne
    · rw [run, if_neg (by simpa using hne)]
      have spec := step_spec closed h hne
      cases hstep : step adj w with
      | inl c => exact .cycle hne hstep
      | inr w' =>
        rw [hstep] at spec
        cases spec with
        | later inv _ hremaining => exact .later hne hstep (ih inv (by omega))

/-- Walks from all roots come to their ends. -/
theorem searches_fromRoots {g : TrustGraph} (closed : (Adjacency.ofGraph g).Closed)
    {roots finished : List Nat} {w : Walk} (h : Invariant (.ofGraph g) finished none w)
    (hstack : w.stack = []) :
    Searches (.ofGraph g) roots w (fromRoots (.ofGraph g) roots w) := by
  induction roots generalizing finished w with
  | nil => exact .nothing
  | cons root roots ih =>
    by_cases hroot : w.mark root = .unvisited
    · have inv := (h.root hstack root).push hroot
      have enough : (w.push (.ofGraph g) root).remaining (.ofGraph g) < fuel (.ofGraph g) := by
        rw [remaining_push h hroot]
        exact remaining_lt_fuel g hstack
      have ends := ends_run closed inv enough
      have spec := run_spec closed inv enough
      rw [fromRoots, if_pos hroot]
      cases hend : run (.ofGraph g) (fuel (.ofGraph g)) (w.push (.ofGraph g) root) with
      | inl c =>
        rw [hend] at ends
        exact .cycle hroot ends
      | inr w' =>
        rw [hend] at ends spec
        cases spec with
        | later inv' _ hstack' => exact .passed hroot ends (ih inv' hstack')
    · rw [fromRoots, if_neg hroot]
      exact .visited hroot (ih h hstack)

end Walk

/-- The search for a cycle comes to an end. -/
theorem Adjacency.searches_findCycle {g : TrustGraph} (closed : (ofGraph g).Closed) :
    Walk.Searches (ofGraph g) (List.range (ofGraph g).size) (.start (ofGraph g))
      (ofGraph g).findCycle :=
  Walk.searches_fromRoots closed (Walk.invariant_start _) rfl

namespace TrustGraph

/-- On every built graph the search for a cycle ends. It finds something exactly if some provider
trusts itself over one or more edges, and what it finds is a cycle: it leads from a provider over
edges back to the same provider and to no other provider twice. -/
theorem findCycle_decides (b : GraphBuilder) (g : TrustGraph) (built : b.build = .ok g) :
    (∃ positions, Walk.Searches (.ofGraph g) (List.range (Adjacency.ofGraph g).size)
        (.start (.ofGraph g)) positions ∧
      g.findCycle = positions.map (Adjacency.ofGraph g).idsAt) ∧
    (g.findCycle.isSome = true ↔
      ∃ id n, Hops (fun source target => g.hasEdge source target = true) id (n + 1) id) ∧
    ∀ c, g.findCycle = some c → 2 ≤ c.length ∧ c.head? = c.getLast? ∧
      c.IsChain (fun source target => g.hasEdge source target = true) ∧ c.dropLast.Nodup := by
  have wf := GraphBuilder.wellFormed_of_build built
  have trusts_iff : ∀ source target, g.hasEdge source target = true ↔ g.Trusts source target :=
    fun _ _ => wf.hasEdge_iff
  refine ⟨?_, ?_, ?_⟩
  · have searches := Adjacency.searches_findCycle (Adjacency.closed_ofGraph wf)
    exact ⟨_, searches, rfl⟩
  · simp only [trusts_iff]
    exact isSome_findCycle_iff wf
  · intro c hc
    have cycle := cycle_of_findCycle wf hc
    simp only [trusts_iff]
    exact ⟨cycle.two_le_length, cycle.head?_eq_getLast?, cycle.isChain, cycle.nodup_dropLast⟩

/-- A provider leads into a cycle that it is not on; behind the cycle another one trusts itself. -/
def lasso : GraphBuilder where
  networkId := "lasso"
  nodes := [⟨⟨"d"⟩, "https://d", .peer, {}⟩, ⟨⟨"a"⟩, "https://a", .peer, {}⟩,
    ⟨⟨"c"⟩, "https://c", .peer, {}⟩, ⟨⟨"b"⟩, "https://b", .peer, {}⟩]
  edges := [⟨⟨"c"⟩, ⟨"b"⟩, .explicit⟩, ⟨⟨"c"⟩, ⟨"d"⟩, .explicit⟩, ⟨⟨"b"⟩, ⟨"c"⟩, .transitive⟩,
    ⟨⟨"a"⟩, ⟨"b"⟩, .explicit⟩, ⟨⟨"d"⟩, ⟨"d"⟩, .explicit⟩]

theorem findCycle_lasso :
    lasso.build = .ok lasso.freeze ∧
      lasso.freeze.findCycle = some [⟨"b"⟩, ⟨"c"⟩, ⟨"b"⟩] ∧
      (∃ id n, Hops (fun source target => lasso.freeze.hasEdge source target = true) id (n + 1)
        id) ∧
      [⟨"b"⟩, ⟨"c"⟩, ⟨"b"⟩].IsChain
        (fun source target => lasso.freeze.hasEdge source target = true) := by
  have built : lasso.build = .ok lasso.freeze := rfl
  have found : lasso.freeze.findCycle = some [⟨"b"⟩, ⟨"c"⟩, ⟨"b"⟩] := by decide +kernel
  obtain ⟨-, isSome_iff, cycle⟩ := findCycle_decides lasso lasso.freeze built
  exact ⟨built, found, isSome_iff.1 (found ▸ rfl), (cycle _ found).2.2.1⟩

end TrustGraph

end Federation
