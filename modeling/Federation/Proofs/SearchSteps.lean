import Federation.Proofs.AdjacencyCopy
import Federation.Proofs.DiscoveryOrder

/-!
# The steps of a search

A search takes positions off its queue until the target is at the front or nothing is left, and
looks at the successors of each one by one. At every moment of this the parents of the reached
positions lead back to the source, the queue is ordered by depth and spans no more than two depths,
and no position enters it twice. The search therefore ends within as many rounds as there are
positions, and the way back from a position after as many steps as its depth tells.
-/

namespace Federation.Search

/-! ### The loops without a bound on their steps -/

/-- The way back along parents ends, after so many steps, at a position without one; the positions
on it, the last of them first. -/
inductive Traceback (parent? : Nat → Option Nat) : Nat → Nat → List Nat → Prop where
  | stop {i : Nat} (h : parent? i = none) : Traceback parent? i 0 [i]
  | step {i p n : Nat} {path : List Nat} (h : parent? i = some p)
      (rest : Traceback parent? p n path) : Traceback parent? i (n + 1) (path ++ [i])

/-- A search goes on until the target is at the front of its queue or the queue is empty, and has
then taken so many positions off the queue. -/
inductive Ends (adj : Adjacency) (maxDepth target : Nat) :
    Search → Nat → Option (List Nat) → Prop where
  | exhausted {s : Search} (h : s.queue = []) : Ends adj maxDepth target s 0 none
  | found {s : Search} {rest : List Nat} {n : Nat} {path : List Nat}
      (h : s.queue = target :: rest) (trace : Traceback s.parent? target n path) :
      Ends adj maxDepth target s 1 (some path)
  | later {s : Search} {current n : Nat} {rest : List Nat} {answer : Option (List Nat)}
      (h : s.queue = current :: rest) (hne : current ≠ target)
      (further : Ends adj maxDepth target (s.expand adj maxDepth) n answer) :
      Ends adj maxDepth target s (n + 1) answer

/-- A search before it takes the next position off its queue, with the positions that it has taken
off before, the first of them first. -/
inductive Round (adj : Adjacency) (maxDepth source target : Nat) : List Nat → Search → Prop where
  | start : Round adj maxDepth source target [] (.start adj.size source)
  | expand {dequeued rest : List Nat} {s : Search} {current : Nat}
      (earlier : Round adj maxDepth source target dequeued s) (h : s.queue = current :: rest)
      (hne : current ≠ target) :
      Round adj maxDepth source target (dequeued ++ [current]) (s.expand adj maxDepth)

/-- A search between any two of its steps: before a round, or in a round after it has looked at some
of the successors of the position that the round has taken off the queue. -/
inductive Moment (adj : Adjacency) (maxDepth source target : Nat) : List Nat → Search → Prop where
  | between {dequeued : List Nat} {s : Search} (h : Round adj maxDepth source target dequeued s) :
      Moment adj maxDepth source target dequeued s
  | within {dequeued rest seen : List Nat} {s : Search} {current : Nat}
      (round : Round adj maxDepth source target dequeued s) (h : s.queue = current :: rest)
      (hne : current ≠ target) (hlt : s.depth current < maxDepth)
      (hseen : seen <+: adj.successors current) :
      Moment adj maxDepth source target (dequeued ++ [current])
        (seen.foldl (reach current) ⟨s.visits, rest⟩)

theorem Traceback.chain_eq {s : Search} {i n : Nat} {path : List Nat}
    (h : Traceback s.parent? i n path) {fuel : Nat} (enough : n ≤ fuel) :
    s.chain fuel i = path := by
  induction h generalizing fuel with
  | stop h =>
    cases fuel with
    | zero => rfl
    | succ fuel => rw [chain, h]
  | step h _ ih =>
    obtain ⟨fuel, rfl⟩ := Nat.exists_eq_add_one_of_ne_zero (Nat.ne_zero_of_lt enough)
    rw [chain, h]
    exact congrArg (· ++ [_]) (ih (Nat.le_of_succ_le_succ enough))

/-! ### One look at a successor -/

/-- The search with positions put back to the front of its queue. -/
def putBack (front : List Nat) (s : Search) : Search :=
  ⟨s.visits, front ++ s.queue⟩

theorem reach_putBack (front : List Nat) (current : Nat) (s : Search) (next : Nat) :
    reach current (s.putBack front) next = (reach current s next).putBack front := by
  unfold reach
  have hvisit : (s.putBack front).visit? next = s.visit? next := rfl
  rw [hvisit]
  split
  · rfl
  · exact congrArg (Search.mk _) (List.append_assoc ..)

theorem foldl_reach_putBack (front : List Nat) (current : Nat) (s : Search) (seen : List Nat) :
    seen.foldl (reach current) (s.putBack front) =
      (seen.foldl (reach current) s).putBack front := by
  induction seen generalizing s with
  | nil => rfl
  | cons next rest ih => rw [List.foldl_cons, List.foldl_cons, reach_putBack, ih]

namespace Invariant

variable {adj : Adjacency} {maxDepth source : Nat} {expanded : List Nat} {s : Search}

/-- What is reached is at most one edge further away than anything in the queue. -/
theorem depth_le_queued (h : Invariant adj maxDepth source expanded s) {i j : Nat}
    (hi : i ∈ s.queue) (hj : (s.visit? j).isSome = true) : s.depth j ≤ s.depth i + 1 := by
  obtain ⟨front, rest, hqueue⟩ := List.exists_cons_of_ne_nil (List.ne_nil_of_mem hi)
  have hfront := h.depth_le_front hqueue hj
  have hordered : s.queue.Pairwise fun i j => s.depth i ≤ s.depth j :=
    (List.pairwise_append.1 h.ordered).2.1
  rw [hqueue] at hi hordered
  rcases List.mem_cons.1 hi with rfl | hi
  · exact hfront
  · have hle := (List.pairwise_cons.1 hordered).1 i hi
    omega

/-- To look at successors of the front keeps everything that holds, with the front in its place. -/
theorem foldl_reach (h : Invariant adj maxDepth source expanded s) {current : Nat}
    {rest seen : List Nat} (hqueue : s.queue = current :: rest) (hlt : s.depth current < maxDepth)
    (nodup : seen.Nodup) (hseen : ∀ j ∈ seen, j < adj.size ∧ adj.Succ current j) :
    Invariant adj maxDepth source expanded (seen.foldl (reach current) s) := by
  obtain ⟨hq, hs, hv⟩ := Search.foldl_reach nodup (h.front_visited hqueue)
    fun j hj => h.size_eq ▸ (hseen j hj).1
  have d : Discovers adj maxDepth current (s.fresh seen) s (seen.foldl (reach current) s) := by
    refine ⟨hq, hs, hv, nodup.filter _, fun j hj => ?_⟩
    obtain ⟨hj, fresh⟩ := mem_fresh_iff.1 hj
    exact ⟨hlt, (hseen j hj).2, fresh⟩
  exact h.discover hqueue d

/-- From a reached position the way back along parents is as long as the depth tells. -/
theorem traceback (h : Invariant adj maxDepth source expanded s) {i : Nat}
    (hi : (s.visit? i).isSome = true) : Traceback s.parent? i (s.depth i) (s.trace i) := by
  induction hdepth : s.depth i generalizing i with
  | zero =>
    obtain rfl := h.eq_source_of_depth hi hdepth
    rw [h.trace_source]
    exact .stop h.parent?_source
  | succ n ih =>
    have hsource := h.depth_source
    obtain ⟨p, hp⟩ := h.exists_parent? hi (by rintro rfl; omega)
    obtain ⟨-, hvisited, -, hparent⟩ := h.parent?_spec hp
    rw [h.trace_of_parent? hp]
    exact .step hp (ih hvisited (by omega))

theorem length_le (h : Invariant adj maxDepth source expanded s) :
    expanded.length + s.queue.length ≤ adj.size := by
  rw [← List.length_append]
  exact length_le_size h.nodup fun i hi => h.lt_size ((h.visited_iff i).2 hi)

end Invariant

/-! ### Every moment of a search -/

/-- What holds of a search that has taken `dequeued` off its queue. -/
structure Sound (adj : Adjacency) (maxDepth source : Nat) (dequeued : List Nat) (s : Search) :
    Prop where
  size_eq : s.visits.size = adj.size
  /-- The source is reached without a parent. -/
  source_visit : s.visit? source = some ⟨none, 0⟩
  /-- All else that is reached has an edge from its parent, which is reached and one less deep. -/
  parent : ∀ i, (s.visit? i).isSome = true → i ≠ source →
    ∃ p, s.parent? i = some p ∧ (s.visit? p).isSome = true ∧ i ∈ adj.successors p ∧
      s.depth i = s.depth p + 1
  depth_le : ∀ i, (s.visit? i).isSome = true → s.depth i ≤ maxDepth
  /-- The depth after that of a reached position is at most the number of positions, so that a word
  that holds this number holds the sum. -/
  succ_depth_le : ∀ i, (s.visit? i).isSome = true → s.depth i + 1 ≤ adj.size
  queue_ordered : s.queue.Pairwise fun i j => s.depth i ≤ s.depth j
  queue_spread : ∀ i ∈ s.queue, ∀ j ∈ s.queue, s.depth j ≤ s.depth i + 1
  /-- Whatever has entered the queue was taken off it or is still there, and entered it once. -/
  nodup : (dequeued ++ s.queue).Nodup
  visited_iff : ∀ i, (s.visit? i).isSome = true ↔ i ∈ dequeued ++ s.queue
  /-- The marks of a reached position and of its successors exist. -/
  in_range : ∀ i, (s.visit? i).isSome = true →
    i < s.visits.size ∧ ∀ j ∈ adj.successors i, j < s.visits.size
  /-- The way back from a reached position ends at the source after as many steps as the depth
  tells, and reads marks that exist. -/
  traceback : ∀ i, (s.visit? i).isSome = true →
    Traceback s.parent? i (s.depth i) (s.chain adj.size i) ∧
      Route adj.Succ source i (s.chain adj.size i) ∧
      (s.chain adj.size i).length = s.depth i + 1 ∧
      ∀ j ∈ s.chain adj.size i, j < s.visits.size

section Moments

variable {adj : Adjacency} (closed : adj.Closed) {maxDepth source target : Nat}
include closed

/-- It is enough to know what holds when the position whose successors are looked at is put back. -/
theorem Invariant.sound {expanded front : List Nat} {s : Search}
    (h : Invariant adj maxDepth source expanded (s.putBack front)) :
    Sound adj maxDepth source (expanded ++ front) s := by
  have succ_depth_le : ∀ i, (s.visit? i).isSome = true → s.depth i + 1 ≤ adj.size := by
    intro i hi
    obtain ⟨x, hx⟩ := Option.isSome_iff_exists.1 hi
    rw [depth_eq hx]
    exact h.depth_lt_size hx
  have hsize : s.visits.size = adj.size := h.size_eq
  have hqueue := (List.pairwise_append.1 h.ordered).2.1
  have queued : ∀ i ∈ s.queue, i ∈ (s.putBack front).queue := fun i hi =>
    List.mem_append_right _ hi
  exact {
    size_eq := hsize
    source_visit := h.source_visit
    parent := by
      intro i hi hne
      obtain ⟨p, hp⟩ := h.exists_parent? hi hne
      exact ⟨p, hp, (h.parent?_spec hp).2⟩
    depth_le := fun _ hi => h.depth_le_bound hi
    succ_depth_le
    queue_ordered := (List.pairwise_append.1 hqueue).2.1
    queue_spread := by
      intro i hi j hj
      have hvisited := (h.visited_iff j).2 (List.mem_append_right _ (queued j hj))
      exact h.depth_le_queued (queued i hi) hvisited
    nodup := List.append_assoc .. ▸ h.nodup
    visited_iff := List.append_assoc .. ▸ h.visited_iff
    in_range := by
      intro i hi
      rw [hsize]
      exact ⟨h.lt_size hi, fun _ hj => closed.successor_lt hj⟩
    traceback := by
      intro i hi
      have trace : Traceback s.parent? i (s.depth i) ((s.putBack front).trace i) := h.traceback hi
      obtain ⟨route, length_eq⟩ := h.trace_spec hi
      obtain ⟨x, hx⟩ := Option.isSome_iff_exists.1 hi
      have below := (h.chain_spec (s.depth i) hx (depth_eq hx).ge).2.2
      rw [trace.chain_eq (Nat.le_of_succ_le (succ_depth_le i hi)), hsize]
      exact ⟨trace, route, length_eq, fun j hj => h.lt_size (below j hj).1⟩ }

variable (hsource : source < adj.size)
include hsource

theorem Round.invariant {dequeued : List Nat} {s : Search}
    (h : Round adj maxDepth source target dequeued s) :
    Invariant adj maxDepth source dequeued s := by
  induction h with
  | start => exact invariant_start hsource maxDepth
  | expand _ hqueue _ ih => exact ih.expand closed hqueue

theorem Moment.sound {dequeued : List Nat} {s : Search}
    (h : Moment adj maxDepth source target dequeued s) :
    Sound adj maxDepth source dequeued s := by
  cases h with
  | between round =>
    have inv : Invariant adj maxDepth source dequeued (s.putBack []) :=
      round.invariant closed hsource
    exact List.append_nil dequeued ▸ inv.sound closed
  | @within dequeued rest seen s current round hqueue hne hlt hseen =>
    have inv := round.invariant closed hsource
    have hback : s = putBack [current] ⟨s.visits, rest⟩ := by
      rw [putBack, List.singleton_append, ← hqueue]
    apply Invariant.sound closed
    rw [← foldl_reach_putBack, ← hback]
    have nodup : seen.Nodup := (closed.successors_nodup current).sublist hseen.sublist
    refine inv.foldl_reach hqueue hlt nodup fun j hj => ?_
    exact ⟨closed.successor_lt (hseen.subset hj), hseen.subset hj⟩

end Moments

/-- The rounds that are left suffice, since each of them takes another position off the queue. -/
theorem ends_run {adj : Adjacency} (closed : adj.Closed) {maxDepth source target : Nat}
    {dequeued : List Nat} {s : Search} (h : Invariant adj maxDepth source dequeued s) (fuel : Nat)
    (enough : adj.size ≤ fuel + dequeued.length) :
    ∃ n, n + dequeued.length ≤ adj.size ∧
      Ends adj maxDepth target s n (run adj maxDepth target fuel s) := by
  have hlength := h.length_le
  induction fuel generalizing s dequeued with
  | zero => exact ⟨0, by omega, .exhausted (h.queue_eq_nil (by omega))⟩
  | succ fuel ih =>
    unfold run
    split
    · rename_i hqueue
      exact ⟨0, by omega, .exhausted hqueue⟩
    · rename_i current rest hqueue
      rw [hqueue, List.length_cons] at hlength
      split
      · rename_i heq
        subst heq
        have inv : Invariant adj maxDepth source dequeued (s.putBack []) := h
        have trace := (inv.sound closed).traceback current (h.front_visited hqueue)
        exact ⟨1, by omega, .found hqueue trace.1⟩
      · rename_i hne
        have inv := h.expand closed hqueue
        have hexpanded : (dequeued ++ [current]).length = dequeued.length + 1 := by simp
        obtain ⟨n, hn, ends⟩ := ih inv (by omega) inv.length_le
        exact ⟨n + 1, by omega, .later hqueue hne ends⟩

/-- All moments of a search are sound, and it ends before it could take a position off its queue for
a second time. -/
structure Orderly (adj : Adjacency) (maxDepth source target : Nat) : Prop where
  sound : ∀ dequeued s, Moment adj maxDepth source target dequeued s →
    Sound adj maxDepth source dequeued s
  ends : ∃ n ≤ adj.size, Ends adj maxDepth target (.start adj.size source) n
    (adj.shortestPath? maxDepth source target)
  /-- The successors of a position are read between offsets that exist and within the targets. -/
  slice : ∀ i < adj.size, ∃ first last, adj.offsets[i]? = some first ∧
    adj.offsets[i + 1]? = some last ∧ first ≤ last ∧ last ≤ adj.targets.size

/-- Whatever graph was built, a search from any of its positions with any bound is orderly. -/
theorem orderly_of_build (b : GraphBuilder) (g : TrustGraph) (built : b.build = .ok g)
    (maxDepth source : Nat) (hsource : source < (Adjacency.ofGraph g).size) (target : Nat) :
    Orderly (.ofGraph g) maxDepth source target := by
  have closed := Adjacency.closed_ofGraph (GraphBuilder.wellFormed_of_build built)
  refine ⟨fun _ _ moment => moment.sound closed hsource, ?_, fun i hi => ?_⟩
  · have inv := invariant_start hsource maxDepth
    exact ends_run closed inv _ (Nat.le_refl _)
  · rw [Adjacency.size_ofGraph, ← Adjacency.length_groups] at hi
    exact (Adjacency.laidOut_ofGraph g).slice hi

/-- A chain of providers with edges back along it and a provider that trusts itself. -/
def knot : GraphBuilder where
  networkId := "knot"
  nodes := ["d", "b", "a", "c"].map fun id => ⟨⟨id⟩, "https://" ++ id, .peer, {}⟩
  edges := [("b", "a"), ("a", "b"), ("c", "c"), ("b", "c"), ("c", "a"), ("c", "d")].map fun ends =>
    ⟨⟨ends.1⟩, ⟨ends.2⟩, .explicit⟩

/-- The target is found at the bound, behind all that was reached before. -/
theorem orderly_knot :
    knot.build = .ok knot.freeze ∧ 0 < (Adjacency.ofGraph knot.freeze).size ∧
      Orderly (.ofGraph knot.freeze) 3 0 3 ∧
      (Adjacency.ofGraph knot.freeze).shortestPath? 3 0 3 = some [0, 1, 2, 3] := by
  have built : knot.build = .ok knot.freeze := rfl
  have hsource : 0 < (Adjacency.ofGraph knot.freeze).size := by decide +kernel
  exact ⟨built, hsource, orderly_of_build knot knot.freeze built 3 0 hsource 3, by decide +kernel⟩

end Federation.Search
