import Federation.Graph.Cycle
import Federation.Proofs.PeerToPeerRoute
import Mathlib.Algebra.Order.BigOperators.Group.List
import Mathlib.Algebra.Order.Group.Nat

/-!
# Depth-first search

A walk in search of a cycle finishes a position after all that the position leads to. So the edges
of finished positions lead to positions that were finished before, and no cycle goes through them.
The stack of the walk is a path, and an edge from its top to a position on it closes a cycle.
-/

namespace Federation

/-- Positions, each of which leads only to positions behind it. -/
inductive Finished (R : Nat → Nat → Prop) : List Nat → Prop where
  | nil : Finished R []
  | cons {i : Nat} {rest : List Nat} (behind : ∀ j, R i j → j ∈ rest) (h : Finished R rest) :
      Finished R (i :: rest)

namespace Finished

variable {R : Nat → Nat → Prop} {l : List Nat}

theorem mem_of_edge (h : Finished R l) {i j : Nat} (hi : i ∈ l) (edge : R i j) : j ∈ l := by
  induction h with
  | nil => cases hi
  | cons behind _ ih =>
    rcases List.mem_cons.1 hi with rfl | hi
    · exact List.mem_cons_of_mem _ (behind j edge)
    · exact List.mem_cons_of_mem _ (ih hi)

theorem mem_of_hops {i : Nat} (h : Finished R l) (behind : ∀ j, R i j → j ∈ l) {n k : Nat}
    (walk : Hops R i (n + 1) k) : k ∈ l := by
  induction n generalizing k with
  | zero =>
    cases walk with
    | step before edge =>
      cases before
      exact behind k edge
  | succ n ih =>
    cases walk with
    | step before edge => exact h.mem_of_edge (ih before) edge

/-- No walk leads from a finished position back to it. -/
theorem not_hops (h : Finished R l) {i : Nat} (hi : i ∈ l) (n : Nat) : ¬ Hops R i (n + 1) i := by
  induction h with
  | nil => cases hi
  | cons behind hrest ih =>
    intro walk
    rcases List.mem_cons.1 hi with rfl | hi
    · exact ih (hrest.mem_of_hops behind walk) walk
    · exact ih hi walk

end Finished

/-- Where the edges of a position on the stack lead: they are pending, they lead to a finished
position, or one of them leads to the position that comes next on the path. -/
structure Frame.Explored (adj : Adjacency) (finished : List Nat) (next? : Option Nat)
    (f : Frame) : Prop where
  succ_of_pending : ∀ j ∈ f.pending, adj.Succ f.position j
  succ_of_next : ∀ j, next? = some j → adj.Succ f.position j
  cases_of_succ : ∀ j, adj.Succ f.position j → j ∈ f.pending ∨ j ∈ finished ∨ next? = some j

/-- The frames of a stack form a path, which leads on to the position that comes next. -/
inductive Stacked (adj : Adjacency) (finished : List Nat) : Option Nat → List Frame → Prop where
  | nil {next? : Option Nat} : Stacked adj finished next? []
  | cons {next? : Option Nat} {f : Frame} {below : List Frame}
      (explored : f.Explored adj finished next?)
      (h : Stacked adj finished (some f.position) below) : Stacked adj finished next? (f :: below)

namespace Stacked

variable {adj : Adjacency} {finished : List Nat} {next? : Option Nat} {stack : List Frame}

theorem mono (h : Stacked adj finished next? stack) {more : List Nat} (hsub : finished ⊆ more) :
    Stacked adj more next? stack := by
  induction h with
  | nil => exact .nil
  | cons explored _ ih =>
    refine .cons ⟨explored.succ_of_pending, explored.succ_of_next, ?_⟩ ih
    intro j edge
    rcases explored.cases_of_succ j edge with hpending | hfinished | hnext
    · exact Or.inl hpending
    · exact Or.inr (Or.inl (hsub hfinished))
    · exact Or.inr (Or.inr hnext)

/-- Nothing comes next once the position that came next is finished. -/
theorem forget {i : Nat} (h : Stacked adj finished (some i) stack) (hi : i ∈ finished) :
    Stacked adj finished none stack := by
  cases h with
  | nil => exact .nil
  | cons explored hbelow =>
    refine .cons ⟨explored.succ_of_pending, ?_, ?_⟩ hbelow
    · intro j hj
      cases hj
    · intro j edge
      rcases explored.cases_of_succ j edge with hpending | hfinished | hnext
      · exact Or.inl hpending
      · exact Or.inr (Or.inl hfinished)
      · obtain rfl := Option.some.inj hnext
        exact Or.inr (Or.inl hi)

/-- From the bottom to the top, each position of a stack leads to the one above it. -/
theorem isChain (h : Stacked adj finished next? stack) :
    (stack.map (·.position)).IsChain fun i j => adj.Succ j i := by
  induction h with
  | nil => exact .nil
  | cons _ hbelow ih =>
    rw [List.map_cons, List.isChain_cons]
    constructor
    · intro j hj
      cases hbelow with
      | nil => cases hj
      | cons explored _ =>
        obtain rfl := Option.some.inj hj
        exact explored.succ_of_next _ rfl
    · exact ih

end Stacked

namespace Walk

/-! ### What holds at every step -/

/-- What holds of a walk that has finished some positions and is about to come to `next?`. -/
structure Invariant (adj : Adjacency) (finished : List Nat) (next? : Option Nat) (w : Walk) :
    Prop where
  size_eq : w.marks.size = adj.size
  onStack_iff : ∀ i, w.mark i = .onStack ↔ i ∈ w.stack.map (·.position)
  done_iff : ∀ i < adj.size, w.mark i = .done ↔ i ∈ finished
  ordered : Finished adj.Succ finished
  nodup : (w.stack.map (·.position)).Nodup
  stacked : Stacked adj finished next? w.stack

theorem mark_set {w : Walk} {i : Nat} (h : i < w.marks.size) (m : Mark) (stack : List Frame)
    (j : Nat) : (Walk.mk (w.marks.setIfInBounds i m) stack).mark j =
      if j = i then m else w.mark j := by
  by_cases hj : j = i
  · subst hj
    simp [mark, h]
  · simp [mark, hj, Ne.symm hj]

theorem invariant_start (adj : Adjacency) : Invariant adj [] none (start adj) where
  size_eq := Array.size_replicate
  onStack_iff i := by
    by_cases hi : i < adj.size <;> simp [start, mark, hi]
  done_iff i hi := by simp [start, mark, hi]
  ordered := .nil
  nodup := .nil
  stacked := .nil

section CloseCycle

variable {stack : List Frame} {next : Nat} {upper lower : List Nat}
  (hsplit : stack.map (·.position) = upper ++ next :: lower) (hlower : next ∉ lower)
include hsplit

theorem path_eq : (stack.map (·.position)).reverse = lower.reverse ++ next :: upper.reverse := by
  rw [hsplit, List.reverse_append, List.reverse_cons, List.append_assoc, List.singleton_append]

include hlower

/-- A position on the stack is found there, at the place where it stands. -/
theorem findIdx?_path :
    (stack.map (·.position)).reverse.findIdx? (· = next) = some lower.length := by
  have hbelow : lower.reverse.findIdx? (· = next) = none := by
    rw [List.findIdx?_eq_none_iff]
    intro i hi
    simpa using ne_of_mem_of_not_mem (List.mem_reverse.1 hi) hlower
  rw [path_eq hsplit, List.findIdx?_append, hbelow, List.findIdx?_cons]
  simp

/-- The cycle goes up the stack from the position, and back to it. -/
theorem closeCycle_eq : closeCycle stack next = (upper ++ [next]).reverse ++ [next] := by
  have hdrop : (lower.reverse ++ next :: upper.reverse).drop lower.length =
      next :: upper.reverse := List.drop_left' List.length_reverse
  rw [closeCycle, findIdx?_path hsplit hlower, Option.getD_some, path_eq hsplit, hdrop,
    List.reverse_append]
  rfl

end CloseCycle

namespace Invariant

variable {adj : Adjacency} {finished : List Nat} {w : Walk}

theorem lt_size {next? : Option Nat} (h : Invariant adj finished next? w) {i : Nat}
    (hi : w.mark i ≠ .done) : i < adj.size := by
  rw [← h.size_eq]
  by_contra hge
  exact hi (by simp [mark, Array.getElem?_eq_none (Nat.le_of_not_lt hge)])

theorem onStack_of_top {next? : Option Nat} (h : Invariant adj finished next? w) {top : Frame}
    {below : List Frame} (hstack : w.stack = top :: below) : w.mark top.position = .onStack := by
  rw [h.onStack_iff, hstack]
  exact List.mem_cons_self

theorem top_lt_size {next? : Option Nat} (h : Invariant adj finished next? w) {top : Frame}
    {below : List Frame} (hstack : w.stack = top :: below) : top.position < w.marks.size := by
  rw [h.size_eq]
  apply h.lt_size
  rw [h.onStack_of_top hstack]
  exact Mark.noConfusion

/-- The top of the stack leads to the position that comes next. -/
theorem succ_of_top {next : Nat} (h : Invariant adj finished (some next) w) {top : Frame}
    {below : List Frame} (hstack : w.stack = top :: below) : adj.Succ top.position next := by
  have stacked := h.stacked
  rw [hstack] at stacked
  cases stacked with
  | cons explored _ => exact explored.succ_of_next next rfl

/-- A walk without a stack may begin anywhere. -/
theorem root (h : Invariant adj finished none w) (hstack : w.stack = []) (i : Nat) :
    Invariant adj finished (some i) w :=
  { h with stacked := hstack ▸ .nil }

theorem push {next : Nat} (h : Invariant adj finished (some next) w)
    (hnext : w.mark next = .unvisited) : Invariant adj finished none (w.push adj next) := by
  have hlt : next < adj.size := h.lt_size (by simp [hnext])
  have hmark : ∀ j, (w.push adj next).mark j = if j = next then .onStack else w.mark j :=
    mark_set (h.size_eq ▸ hlt) .onStack _
  have hnew : next ∉ w.stack.map (·.position) := by
    rw [← h.onStack_iff, hnext]
    exact Mark.noConfusion
  exact {
    size_eq := by simp [Walk.push, h.size_eq]
    onStack_iff := by
      intro i
      rw [hmark]
      by_cases hi : i = next
      · simp [hi, Walk.push]
      · simpa [hi, Walk.push] using h.onStack_iff i
    done_iff := by
      intro i hi
      rw [hmark, ← h.done_iff i hi]
      by_cases hi : i = next <;> simp [hi, hnext]
    ordered := h.ordered
    nodup := List.nodup_cons.2 ⟨hnew, h.nodup⟩
    stacked := by
      refine .cons ⟨fun j hj => hj, ?_, fun j hj => Or.inl hj⟩ h.stacked
      intro j hj
      cases hj }

/-- The walk takes the next pending edge of its top. -/
theorem advance {i next : Nat} {pending : List Nat} {below : List Frame}
    (h : Invariant adj finished none w) (hstack : w.stack = ⟨i, next :: pending⟩ :: below) :
    Invariant adj finished (some next) ⟨w.marks, ⟨i, pending⟩ :: below⟩ := by
  obtain ⟨size_eq, onStack_iff, done_iff, ordered, nodup, stacked⟩ := h
  rw [hstack] at onStack_iff nodup stacked
  refine ⟨size_eq, onStack_iff, done_iff, ordered, nodup, ?_⟩
  cases stacked with
  | cons explored hbelow =>
    refine .cons ⟨?_, ?_, ?_⟩ hbelow
    · intro j hj
      exact explored.succ_of_pending j (List.mem_cons_of_mem _ hj)
    · intro j hj
      obtain rfl := Option.some.inj hj
      exact explored.succ_of_pending next List.mem_cons_self
    · intro j edge
      rcases explored.cases_of_succ j edge with hpending | hfinished | hnext
      · rcases List.mem_cons.1 hpending with rfl | hpending
        · exact Or.inr (Or.inr rfl)
        · exact Or.inl hpending
      · exact Or.inr (Or.inl hfinished)
      · cases hnext

/-- An edge to a finished position is passed over. -/
theorem passOver {next : Nat} (h : Invariant adj finished (some next) w)
    (hlt : next < adj.size) (hnext : w.mark next = .done) : Invariant adj finished none w :=
  { h with stacked := h.stacked.forget ((h.done_iff next hlt).1 hnext) }

/-- The top of the stack is finished when no edge of it is pending. -/
theorem finish {i : Nat} {below : List Frame} (h : Invariant adj finished none w)
    (hstack : w.stack = ⟨i, []⟩ :: below) :
    Invariant adj (i :: finished) none ⟨w.marks.setIfInBounds i .done, below⟩ := by
  have hmark := mark_set (h.top_lt_size hstack) .done below
  obtain ⟨size_eq, onStack_iff, done_iff, ordered, nodup, stacked⟩ := h
  rw [hstack] at onStack_iff nodup stacked
  obtain ⟨hi, hnodup⟩ := List.nodup_cons.1 nodup
  cases stacked with
  | cons explored hbelow =>
    exact {
      size_eq := by simp [size_eq]
      onStack_iff := by
        intro j
        rw [hmark]
        by_cases hj : j = i
        · simpa [hj] using hi
        · simpa [hj] using onStack_iff j
      done_iff := by
        intro j hj
        rw [hmark, List.mem_cons, ← done_iff j hj]
        by_cases hj : j = i <;> simp [hj]
      ordered := by
        refine .cons ?_ ordered
        intro j edge
        rcases explored.cases_of_succ j edge with hpending | hfinished | hnext
        · cases hpending
        · exact hfinished
        · cases hnext
      nodup := hnodup
      stacked := (hbelow.mono (List.subset_cons_self _ _)).forget List.mem_cons_self }

/-- An edge back onto the stack closes a cycle. -/
theorem cycle_closeCycle {next : Nat} (h : Invariant adj finished (some next) w)
    (hne : w.stack ≠ []) (hnext : w.mark next = .onStack) :
    Cycle adj.Succ (closeCycle w.stack next) ∧ ∀ i ∈ closeCycle w.stack next, i < adj.size := by
  obtain ⟨upper, lower, hsplit⟩ := List.append_of_mem ((h.onStack_iff next).1 hnext)
  have hpath : w.stack.map (·.position) = (upper ++ [next]) ++ lower := by
    rw [hsplit, List.append_assoc]
    rfl
  have hchain := h.stacked.isChain
  have hnodup := h.nodup
  rw [hpath] at hchain hnodup
  have onStack : ∀ i ∈ upper ++ [next], i < adj.size := by
    intro i hi
    have hmem : i ∈ w.stack.map (·.position) := hpath ▸ List.mem_append_left _ hi
    exact h.lt_size (by simp [(h.onStack_iff i).2 hmem])
  obtain ⟨top, below, hstack⟩ := List.exists_cons_of_ne_nil hne
  have htop : (upper ++ [next]).head? = some top.position := by
    have hhead := congrArg List.head? hpath
    rw [hstack, List.head?_append_of_ne_nil _ (by simp)] at hhead
    exact hhead.symm
  have hlower : next ∉ lower := by
    intro hmem
    exact (List.nodup_append.1 hnodup).2.2 next (by simp) next hmem rfl
  rw [closeCycle_eq hsplit hlower]
  constructor
  · refine ⟨next, top.position, _, ⟨?_, ?_, ?_, ?_⟩, h.succ_of_top hstack, rfl⟩
    · simp
    · rw [List.getLast?_reverse, htop]
    · exact List.isChain_reverse.2 (List.isChain_append.1 hchain).1
    · exact List.nodup_reverse.2 (List.nodup_append.1 hnodup).1
  · intro i hi
    apply onStack
    rcases List.mem_append.1 hi with hi | hi
    · exact List.mem_reverse.1 hi
    · exact List.mem_append_right _ hi

end Invariant

/-! ### How long a walk takes -/

/-- The positions that a walk has not come to. -/
def unvisited (adj : Adjacency) (w : Walk) : List Nat :=
  (List.range adj.size).filter (w.mark · = .unvisited)

/-- The steps that a position takes: one for each of its edges and one to finish it. -/
def cost (adj : Adjacency) (i : Nat) : Nat :=
  (adj.successors i).length + 1

/-- The steps that a walk still takes, and walks from other roots after it. -/
def remaining (adj : Adjacency) (w : Walk) : Nat :=
  (w.stack.map fun f => f.pending.length + 1).sum + ((w.unvisited adj).map (cost adj)).sum

theorem unvisited_push {adj : Adjacency} {finished : List Nat} {next? : Option Nat} {w : Walk}
    (h : Invariant adj finished next? w) {i : Nat} (hi : w.mark i = .unvisited) :
    (w.push adj i).unvisited adj = (w.unvisited adj).erase i := by
  have hlt : i < w.marks.size := h.size_eq ▸ h.lt_size (by simp [hi])
  have hnodup : (w.unvisited adj).Nodup := List.nodup_range.filter _
  rw [hnodup.erase_eq_filter, unvisited, unvisited, List.filter_filter]
  apply List.filter_congr
  intro j _
  have hmark : (w.push adj i).mark j = if j = i then .onStack else w.mark j :=
    mark_set hlt .onStack _ j
  rw [hmark]
  by_cases hj : j = i <;> simp [hj]

theorem remaining_push {adj : Adjacency} {finished : List Nat} {next? : Option Nat} {w : Walk}
    (h : Invariant adj finished next? w) {i : Nat} (hi : w.mark i = .unvisited) :
    (w.push adj i).remaining adj = w.remaining adj := by
  have hmem : i ∈ w.unvisited adj :=
    List.mem_filter.2 ⟨List.mem_range.2 (h.lt_size (by simp [hi])), by simpa using hi⟩
  have hsum := List.sum_map_erase (cost adj) hmem
  have htop : (((w.push adj i).stack.map fun f => f.pending.length + 1)).sum =
      cost adj i + (w.stack.map fun f => f.pending.length + 1).sum := List.sum_cons
  rw [remaining, remaining, unvisited_push h hi, htop]
  omega

theorem remaining_finish {adj : Adjacency} {finished : List Nat} {w : Walk} {i : Nat}
    {below : List Frame} (h : Invariant adj finished none w) (hstack : w.stack = ⟨i, []⟩ :: below) :
    remaining adj ⟨w.marks.setIfInBounds i .done, below⟩ + 1 = w.remaining adj := by
  have honStack : w.mark i = .onStack := h.onStack_of_top hstack
  have hsame : (Walk.mk (w.marks.setIfInBounds i .done) below).unvisited adj = w.unvisited adj := by
    apply List.filter_congr
    intro j _
    rw [mark_set (h.top_lt_size hstack)]
    by_cases hj : j = i <;> simp [hj, honStack]
  rw [remaining, remaining, hsame, hstack, List.map_cons, List.sum_cons]
  simp only [List.length_nil]
  omega

theorem remaining_advance (adj : Adjacency) {w : Walk} {i next : Nat} {pending : List Nat}
    {below : List Frame} (hstack : w.stack = ⟨i, next :: pending⟩ :: below) :
    remaining adj ⟨w.marks, ⟨i, pending⟩ :: below⟩ + 1 = w.remaining adj := by
  have hsame : (Walk.mk w.marks (⟨i, pending⟩ :: below)).unvisited adj = w.unvisited adj := rfl
  rw [remaining, remaining, hsame, hstack]
  simp only [List.map_cons, List.sum_cons, List.length_cons]
  omega

/-- The steps that are left before a root is chosen are fewer than a walk may take. -/
theorem remaining_lt_fuel (g : TrustGraph) {w : Walk} (hstack : w.stack = []) :
    w.remaining (.ofGraph g) < fuel (.ofGraph g) := by
  have hsub : ((w.unvisited (.ofGraph g)).map (cost (.ofGraph g))).sum ≤
      ((List.range (Adjacency.ofGraph g).size).map (cost (.ofGraph g))).sum :=
    (List.filter_sublist.map _).sum_le_sum fun _ _ => Nat.zero_le _
  have hall : ((List.range (Adjacency.ofGraph g).size).map (cost (.ofGraph g))).sum =
      (Adjacency.ofGraph g).edgeCount + (Adjacency.ofGraph g).size := by
    have hcost : cost (.ofGraph g) = fun i => ((Adjacency.ofGraph g).successors i).length + 1 := rfl
    rw [← Adjacency.sum_length_successors, hcost, List.sum_map_add, List.map_const',
      List.sum_replicate_nat, List.length_range, Nat.mul_one]
  rw [remaining, hstack, fuel]
  simp only [List.map_nil, List.sum_nil]
  omega

/-! ### What a walk finds -/

/-- A walk comes to a cycle, or to a later state that has forgotten no position. -/
inductive Leads (adj : Adjacency) (w : Walk) (P : Walk → Prop) : List Nat ⊕ Walk → Prop where
  | cycle {c : List Nat} (h : Cycle adj.Succ c) (inRange : ∀ i ∈ c, i < adj.size) :
      Leads adj w P (.inl c)
  | later {w' : Walk} {finished : List Nat} (inv : Invariant adj finished none w')
      (visited : ∀ i, w'.mark i = .unvisited → w.mark i = .unvisited) (h : P w') :
      Leads adj w P (.inr w')

theorem Leads.trans {adj : Adjacency} {w w' : Walk} {P : Walk → Prop} {result : List Nat ⊕ Walk}
    (h : Leads adj w' P result) (visited : ∀ i, w'.mark i = .unvisited → w.mark i = .unvisited) :
    Leads adj w P result := by
  cases h with
  | cycle cycle inRange => exact .cycle cycle inRange
  | later inv hvisited h => exact .later inv (fun i hi => visited i (hvisited i hi)) h

theorem unvisited_of_set {w : Walk} {i : Nat} (hlt : i < w.marks.size) {m : Mark}
    (hm : m ≠ .unvisited) {stack : List Frame} {j : Nat}
    (hj : (Walk.mk (w.marks.setIfInBounds i m) stack).mark j = .unvisited) :
    j ≠ i ∧ w.mark j = .unvisited := by
  rw [mark_set hlt] at hj
  split at hj
  · exact absurd hj hm
  · exact ⟨‹_›, hj⟩

section Steps

variable {adj : Adjacency} (closed : adj.Closed)
include closed

/-- One step takes one off the steps that remain. -/
theorem step_spec {finished : List Nat} {w : Walk}
    (h : Invariant adj finished none w) (hne : w.stack ≠ []) :
    Leads adj w (fun w' => w'.remaining adj + 1 = w.remaining adj)
      (step adj w) := by
  obtain ⟨⟨i, pending⟩, below, hstack⟩ := List.exists_cons_of_ne_nil hne
  cases pending with
  | nil =>
    have hstep : step adj w = .inr ⟨w.marks.setIfInBounds i .done, below⟩ := by
      rw [step, hstack]
    rw [hstep]
    refine .later (h.finish hstack) ?_ (remaining_finish h hstack)
    intro j hj
    exact (unvisited_of_set (h.top_lt_size hstack) (by decide) hj).2
  | cons next pending =>
    have inv := h.advance hstack
    have hremaining := remaining_advance adj hstack
    have hlt : next < adj.size := closed.successor_lt (inv.succ_of_top rfl)
    cases hnext : w.mark next with
    | unvisited =>
      have hstep : step adj w =
          .inr (push ⟨w.marks, ⟨i, pending⟩ :: below⟩ adj next) := by
        simp only [step, hstack, hnext]
      rw [hstep]
      refine .later (inv.push hnext) ?_ ?_
      · intro j hj
        exact (unvisited_of_set (h.size_eq ▸ hlt) (by decide) hj).2
      · rw [remaining_push inv hnext, hremaining]
    | onStack =>
      have hstep : step adj w = .inl (closeCycle (⟨i, pending⟩ :: below) next) := by
        simp only [step, hstack, hnext]
      obtain ⟨cycle, inRange⟩ := inv.cycle_closeCycle (List.cons_ne_nil _ _) hnext
      rw [hstep]
      exact .cycle cycle inRange
    | done =>
      have hstep : step adj w = .inr ⟨w.marks, ⟨i, pending⟩ :: below⟩ := by
        simp only [step, hstack, hnext]
      rw [hstep]
      exact .later (inv.passOver hlt hnext) (fun _ hj => hj) hremaining

/-- With more steps than remain, a walk comes to a cycle or to its end. -/
theorem run_spec {fuel : Nat} {finished : List Nat} {w : Walk}
    (h : Invariant adj finished none w) (enough : w.remaining adj < fuel) :
    Leads adj w (fun w' => w'.stack = []) (run adj fuel w) := by
  induction fuel generalizing finished w with
  | zero => exact absurd enough (Nat.not_lt_zero _)
  | succ fuel ih =>
    by_cases hne : w.stack = []
    · rw [run, if_pos (by simp [hne])]
      exact .later h (fun _ hi => hi) hne
    · rw [run, if_neg (by simpa using hne)]
      have hstep := step_spec closed h hne
      cases hresult : step adj w with
      | inl c =>
        rw [hresult] at hstep
        cases hstep with
        | cycle cycle inRange => exact .cycle cycle inRange
      | inr w' =>
        rw [hresult] at hstep
        cases hstep with
        | later inv visited hremaining => exact (ih inv (by omega)).trans visited

end Steps

/-- What the search for a cycle answers: a cycle, or that no walk comes back to where it began. -/
def Answer (adj : Adjacency) : Option (List Nat) → Prop
  | some c => Cycle adj.Succ c ∧ ∀ i ∈ c, i < adj.size
  | none => ∀ i n, ¬ Hops adj.Succ i (n + 1) i

/-- A walk that has come to all positions has found no cycle. -/
theorem Invariant.answer_none {adj : Adjacency} (closed : adj.Closed) {finished : List Nat}
    {w : Walk} (h : Invariant adj finished none w) (hstack : w.stack = [])
    (visited : ∀ i < adj.size, w.mark i ≠ .unvisited) : Answer adj none := by
  intro i n walk
  have hlt : i < adj.size := by
    cases walk with
    | step _ edge => exact closed.successor_lt edge
  have hdone : w.mark i = .done := by
    cases hmark : w.mark i with
    | unvisited => exact absurd hmark (visited i hlt)
    | onStack =>
      have hmem := (h.onStack_iff i).1 hmark
      rw [hstack] at hmem
      cases hmem
    | done => rfl
  exact h.ordered.not_hops ((h.done_iff i hlt).1 hdone) n walk

theorem answer_fromRoots {g : TrustGraph} (closed : (Adjacency.ofGraph g).Closed)
    {roots finished : List Nat} {w : Walk} (h : Invariant (.ofGraph g) finished none w)
    (hstack : w.stack = [])
    (hroots : ∀ i < (Adjacency.ofGraph g).size, w.mark i = .unvisited → i ∈ roots) :
    Answer (.ofGraph g) (fromRoots (.ofGraph g) roots w) := by
  induction roots generalizing finished w with
  | nil => exact h.answer_none closed hstack fun i hi hmark => List.not_mem_nil (hroots i hi hmark)
  | cons root roots ih =>
    by_cases hroot : w.mark root = .unvisited
    · have inv := (h.root hstack root).push hroot
      have enough : (w.push (.ofGraph g) root).remaining (.ofGraph g) < fuel (.ofGraph g) := by
        rw [remaining_push h hroot]
        exact remaining_lt_fuel g hstack
      have hlt : root < w.marks.size := h.size_eq ▸ h.lt_size (by simp [hroot])
      have hrun := run_spec closed inv enough
      rw [fromRoots, if_pos hroot]
      cases hend : run (.ofGraph g) (fuel (.ofGraph g)) (w.push (.ofGraph g) root) with
      | inl c =>
        rw [hend] at hrun
        cases hrun with
        | cycle cycle inRange => exact ⟨cycle, inRange⟩
      | inr w' =>
        rw [hend] at hrun
        cases hrun with
        | later inv' visited hstack' =>
          apply ih inv' hstack'
          intro i hi hmark
          obtain ⟨hne, hmark⟩ := unvisited_of_set hlt (by decide) (visited i hmark)
          exact List.mem_of_ne_of_mem hne (hroots i hi hmark)
    · rw [fromRoots, if_neg hroot]
      apply ih h hstack
      intro i hi hmark
      have hne : i ≠ root := by
        rintro rfl
        exact hroot hmark
      exact List.mem_of_ne_of_mem hne (hroots i hi hmark)

end Walk

theorem Adjacency.answer_findCycle {g : TrustGraph} (closed : (ofGraph g).Closed) :
    Walk.Answer (ofGraph g) (ofGraph g).findCycle :=
  Walk.answer_fromRoots closed (Walk.invariant_start _) rfl fun _ hi _ => List.mem_range.2 hi

namespace TrustGraph

variable {g : TrustGraph} (wf : g.WellFormed)
include wf

/-- What is found in a graph is a cycle of its trust. -/
theorem cycle_of_findCycle {c : List ProviderId} (h : g.findCycle = some c) :
    Cycle g.Trusts c := by
  have answer := Adjacency.answer_findCycle (Adjacency.closed_ofGraph wf)
  obtain ⟨positions, hpositions, rfl⟩ := Option.map_eq_some_iff.1 h
  rw [hpositions] at answer
  obtain ⟨cycle, inRange⟩ := answer
  have distinct : ∀ i ∈ positions, ∀ j ∈ positions,
      (Adjacency.ofGraph g).idAt i = (Adjacency.ofGraph g).idAt j → i = j := by
    intro i hi j hj heq
    have hj := Adjacency.id?_eq_idAt (inRange j hj)
    exact Adjacency.id?_inj (Adjacency.id?_eq_idAt (inRange i hi)) (heq ▸ hj)
  rw [Adjacency.idsAt_eq_map inRange]
  exact cycle.map (Adjacency.trusts_of_succ wf) distinct

/-- A cycle is found exactly when some provider trusts itself along a walk. -/
theorem isSome_findCycle_iff :
    g.findCycle.isSome = true ↔ ∃ id n, Hops g.Trusts id (n + 1) id := by
  constructor
  · intro h
    obtain ⟨c, hc⟩ := Option.isSome_iff_exists.1 h
    exact (cycle_of_findCycle wf hc).exists_hops
  · rintro ⟨id, n, walk⟩
    have hid : g.contains id = true := by
      cases walk with
      | step _ edge => exact (wf.contains_of_trusts edge).2
    obtain ⟨i, hi⟩ := Adjacency.exists_id?_iff.2 hid
    have answer := Adjacency.answer_findCycle (Adjacency.closed_ofGraph wf)
    cases hfound : (Adjacency.ofGraph g).findCycle with
    | none =>
      rw [hfound] at answer
      exact absurd ((Adjacency.hops_iff wf hi hi).2 walk) (answer i n)
    | some positions => simp [findCycle, hfound]

end TrustGraph

end Federation
