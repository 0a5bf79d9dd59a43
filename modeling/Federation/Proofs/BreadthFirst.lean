import Federation.Policy.PeerToPeer
import Federation.Proofs.AdjacencyLayout
import Federation.Proofs.TrustWalk

/-!
# Breadth-first search

A search expands positions in the order in which it discovers them. What it has discovered so far is
the list of the expanded positions followed by the queue: along this list depths never decrease, and
all positions after the front of the queue are at most one edge further away than the front. From
this it follows that the depth of a position, once it is at the front, is its distance.
-/

namespace Federation

/-- The edges of an adjacency as a relation between positions. -/
def Adjacency.Succ (adj : Adjacency) (i j : Nat) : Prop :=
  j ∈ adj.successors i

namespace Search

/-! ### One step of the search -/

/-- The positions of a list that were not reached yet. -/
def fresh (s : Search) (l : List Nat) : List Nat :=
  l.filter fun i => (s.visit? i).isNone

/-- The positions that the expansion of `current` discovers. -/
def discovered (adj : Adjacency) (maxDepth : Nat) (s : Search) (current : Nat) : List Nat :=
  if maxDepth ≤ s.depth current then [] else s.fresh (adj.successors current)

theorem mem_fresh_iff {s : Search} {l : List Nat} {i : Nat} :
    i ∈ s.fresh l ↔ i ∈ l ∧ s.visit? i = none := by
  simp [fresh]

theorem mem_discovered_iff {adj : Adjacency} {maxDepth : Nat} {s : Search} {current i : Nat} :
    i ∈ discovered adj maxDepth s current ↔
      s.depth current < maxDepth ∧ adj.Succ current i ∧ s.visit? i = none := by
  unfold discovered
  split
  · rename_i hbound
    simp [Nat.not_lt.2 hbound]
  · rename_i hbound
    simp [mem_fresh_iff, Adjacency.Succ, Nat.lt_of_not_le hbound]

theorem not_mem_discovered {adj : Adjacency} {maxDepth : Nat} {s : Search} {current i : Nat}
    (h : (s.visit? i).isSome = true) : i ∉ discovered adj maxDepth s current := by
  intro hnew
  rw [(mem_discovered_iff.1 hnew).2.2] at h
  cases h

theorem discovered_nodup {adj : Adjacency} (closed : adj.Closed) (maxDepth : Nat) (s : Search)
    (current : Nat) : (discovered adj maxDepth s current).Nodup := by
  unfold discovered
  split
  · exact .nil
  · exact (closed.successors_nodup current).filter _

theorem depth_eq {s : Search} {i : Nat} {x : Visit} (h : s.visit? i = some x) :
    s.depth i = x.depth := by
  rw [depth, h]

theorem visit?_mark {s : Search} {next : Nat} (h : next < s.visits.size) (x : Visit)
    (queue : List Nat) (i : Nat) :
    (Search.mk (s.visits.setIfInBounds next (some x)) queue).visit? i =
      if i = next then some x else s.visit? i := by
  by_cases hi : i = next
  · subst hi
    simp [visit?, h]
  · simp [visit?, hi, Ne.symm hi]

theorem reach_of_visited {current next : Nat} {s : Search} (h : (s.visit? next).isSome = true) :
    reach current s next = s :=
  if_pos h

theorem visit?_reach {current next : Nat} {s : Search} (hnext : next < s.visits.size)
    (h : s.visit? next = none) (i : Nat) :
    (reach current s next).visit? i =
      if i = next then some ⟨some current, s.depth current + 1⟩ else s.visit? i := by
  rw [reach, if_neg (by simp [h])]
  exact visit?_mark hnext _ _ i

theorem size_reach (current : Nat) {next : Nat} {s : Search} (h : s.visit? next = none) :
    (reach current s next).visits.size = s.visits.size := by
  simp [reach, h]

theorem queue_reach (current : Nat) {next : Nat} {s : Search} (h : s.visit? next = none) :
    (reach current s next).queue = s.queue ++ [next] := by
  simp [reach, h]

/-- What is reached counts as fresh no more; all else that follows does. -/
theorem fresh_cons_reach {current next : Nat} {rest : List Nat} {s : Search}
    (hlt : next < s.visits.size) (h : s.visit? next = none) (hrest : next ∉ rest) :
    s.fresh (next :: rest) = next :: (reach current s next).fresh rest := by
  have hsame : (reach current s next).fresh rest = s.fresh rest := by
    apply List.filter_congr
    intro i hi
    rw [visit?_reach hlt h, if_neg (ne_of_mem_of_not_mem hi hrest)]
  rw [hsame]
  simp [fresh, h]

/-- Reaching all successors of a position marks and queues those that were not reached yet. -/
theorem foldl_reach {current : Nat} {l : List Nat} (nodup : l.Nodup) {s : Search}
    (visited : (s.visit? current).isSome = true) (inRange : ∀ i ∈ l, i < s.visits.size) :
    (l.foldl (reach current) s).queue = s.queue ++ s.fresh l ∧
      (l.foldl (reach current) s).visits.size = s.visits.size ∧
      ∀ i, (l.foldl (reach current) s).visit? i =
        if i ∈ s.fresh l then some ⟨some current, s.depth current + 1⟩ else s.visit? i := by
  induction l generalizing s with
  | nil => simp [fresh]
  | cons next rest ih =>
    obtain ⟨hnext, hrest⟩ := List.nodup_cons.1 nodup
    have hrange : ∀ i ∈ rest, i < s.visits.size := by
      intro i hi
      exact inRange i (List.mem_cons_of_mem _ hi)
    cases hvisit : s.visit? next with
    | some x =>
      have hfresh : s.fresh (next :: rest) = s.fresh rest := by simp [fresh, hvisit]
      rw [List.foldl_cons, reach_of_visited (by simp [hvisit]), hfresh]
      exact ih hrest visited hrange
    | none =>
      have hlt : next < s.visits.size := inRange next List.mem_cons_self
      have hsize := size_reach current hvisit
      have hne : current ≠ next := by
        rintro rfl
        simp [hvisit] at visited
      have hcurrent : (reach current s next).visit? current = s.visit? current := by
        rw [visit?_reach hlt hvisit, if_neg hne]
      have hdepth : (reach current s next).depth current = s.depth current := by
        rw [depth, depth, hcurrent]
      obtain ⟨hq, hs, hv⟩ := ih hrest (s := reach current s next) (by rwa [hcurrent])
        (fun i hi => hsize ▸ hrange i hi)
      rw [List.foldl_cons, fresh_cons_reach hlt hvisit hnext]
      refine ⟨?_, hs.trans hsize, ?_⟩
      · rw [hq, queue_reach current hvisit, List.append_assoc]
        rfl
      · intro i
        rw [hv, hdepth, visit?_reach hlt hvisit]
        by_cases hi : i = next
        · subst hi
          simp
        · simp [hi]

/-- What one step does: the front of the queue gives way to the positions it discovers. -/
theorem expand_spec {adj : Adjacency} (closed : adj.Closed) (maxDepth : Nat) {s : Search}
    {current : Nat} {rest : List Nat} (hqueue : s.queue = current :: rest)
    (hsize : s.visits.size = adj.size) (visited : (s.visit? current).isSome = true) :
    (s.expand adj maxDepth).queue = rest ++ discovered adj maxDepth s current ∧
      (s.expand adj maxDepth).visits.size = adj.size ∧
      ∀ i, (s.expand adj maxDepth).visit? i =
        if i ∈ discovered adj maxDepth s current then some ⟨some current, s.depth current + 1⟩
        else s.visit? i := by
  have hexpand : s.expand adj maxDepth = if maxDepth ≤ s.depth current then ⟨s.visits, rest⟩
      else (adj.successors current).foldl (reach current) ⟨s.visits, rest⟩ := by
    rw [expand, hqueue]
    rfl
  by_cases hbound : maxDepth ≤ s.depth current
  · rw [hexpand, if_pos hbound, discovered, if_pos hbound]
    exact ⟨(List.append_nil _).symm, hsize, fun i => by simp [visit?]⟩
  · rw [hexpand, if_neg hbound, discovered, if_neg hbound]
    obtain ⟨hq, hs, hv⟩ := foldl_reach (closed.successors_nodup current)
      (s := ⟨s.visits, rest⟩) visited (fun i hi => hsize ▸ closed.successor_lt hi)
    exact ⟨hq, hs.trans hsize, hv⟩

/-- A search has grown from `s` to `t` by the discovery of `new`, successors of `current` that were
not reached before. -/
structure Discovers (adj : Adjacency) (maxDepth current : Nat) (new : List Nat) (s t : Search) :
    Prop where
  queue_eq : t.queue = s.queue ++ new
  size_eq : t.visits.size = s.visits.size
  visit?_eq : ∀ i, t.visit? i =
    if i ∈ new then some ⟨some current, s.depth current + 1⟩ else s.visit? i
  nodup : new.Nodup
  unreached : ∀ i ∈ new, s.depth current < maxDepth ∧ adj.Succ current i ∧ s.visit? i = none

namespace Discovers

variable {adj : Adjacency} {maxDepth current : Nat} {new : List Nat} {s t : Search}
  (d : Discovers adj maxDepth current new s t)
include d

theorem visit?_of_visited {i : Nat} {x : Visit} (hx : s.visit? i = some x) :
    t.visit? i = some x := by
  have hold : i ∉ new := by
    intro hi
    rw [(d.unreached i hi).2.2] at hx
    cases hx
  rw [d.visit?_eq, if_neg hold, hx]

theorem depth_of_visited {i : Nat} (hi : (s.visit? i).isSome = true) : t.depth i = s.depth i := by
  obtain ⟨x, hx⟩ := Option.isSome_iff_exists.1 hi
  rw [depth_eq (d.visit?_of_visited hx), depth_eq hx]

theorem visit?_of_mem {i : Nat} (hi : i ∈ new) :
    t.visit? i = some ⟨some current, s.depth current + 1⟩ := by
  rw [d.visit?_eq, if_pos hi]

theorem depth_of_mem {i : Nat} (hi : i ∈ new) : t.depth i = s.depth current + 1 :=
  depth_eq (d.visit?_of_mem hi)

/-- The list of all that was discovered grows at its end only. -/
theorem order_eq (expanded : List Nat) : expanded ++ t.queue = expanded ++ s.queue ++ new := by
  rw [d.queue_eq, List.append_assoc]

end Discovers

/-! ### What holds at every step -/

/-- What holds of a search whose expanded positions are `expanded`, the first of them first. -/
structure Invariant (adj : Adjacency) (maxDepth source : Nat) (expanded : List Nat)
    (s : Search) : Prop where
  size_eq : s.visits.size = adj.size
  /-- The reached positions are the expanded ones and those in the queue. -/
  visited_iff : ∀ i, (s.visit? i).isSome = true ↔ i ∈ expanded ++ s.queue
  nodup : (expanded ++ s.queue).Nodup
  source_visit : s.visit? source = some ⟨none, 0⟩
  parent_visit : ∀ i x, s.visit? i = some x → i ≠ source → ∃ p y, x.parent = some p ∧
    s.visit? p = some y ∧ adj.Succ p i ∧ x.depth = y.depth + 1
  depth_le : ∀ i x, s.visit? i = some x → x.depth ≤ maxDepth
  /-- The edges from expanded positions are accounted for. -/
  expanded_edges : ∀ i ∈ expanded, s.depth i < maxDepth → ∀ j, adj.Succ i j →
    (s.visit? j).isSome = true ∧ s.depth j ≤ s.depth i + 1
  ordered : (expanded ++ s.queue).Pairwise fun i j => s.depth i ≤ s.depth j
  spread : ∀ current rest, s.queue = current :: rest →
    ∀ i ∈ s.queue, s.depth i ≤ s.depth current + 1

theorem visit?_start {size source : Nat} (h : source < size) (i : Nat) :
    (start size source).visit? i = if i = source then some ⟨none, 0⟩ else none := by
  have hnone : (Search.mk (Array.replicate size none) []).visit? i = none := by
    by_cases hi : i < size <;> simp [visit?, hi]
  rw [start, visit?_mark (s := ⟨Array.replicate size none, []⟩) (by simpa using h), hnone]

theorem invariant_start {adj : Adjacency} {source : Nat} (h : source < adj.size)
    (maxDepth : Nat) : Invariant adj maxDepth source [] (start adj.size source) := by
  have hvisit := visit?_start h
  have hqueue : (start adj.size source).queue = [source] := rfl
  refine ⟨by simp [start], fun i => ?_, by simp [hqueue], by simp [hvisit], fun i x hx hne => ?_,
    fun i x hx => ?_, by simp, by simp [hqueue], fun current rest hq i hi => ?_⟩
  · rw [hvisit, hqueue]
    by_cases hi : i = source <;> simp [hi]
  · simp [hvisit, hne] at hx
  · by_cases hi : i = source
    · simp only [hvisit, hi, if_pos, Option.some.injEq] at hx
      subst hx
      exact Nat.zero_le _
    · simp [hvisit, hi] at hx
  · rw [hqueue] at hq hi
    obtain ⟨rfl, rfl⟩ := List.cons.inj hq
    obtain rfl := List.mem_singleton.1 hi
    exact Nat.le_succ _

namespace Invariant

variable {adj : Adjacency} {maxDepth source : Nat} {expanded : List Nat} {s : Search}

theorem lt_size (h : Invariant adj maxDepth source expanded s) {i : Nat}
    (hi : (s.visit? i).isSome = true) : i < adj.size := by
  rw [← h.size_eq]
  by_contra hge
  simp [visit?, Array.getElem?_eq_none (Nat.le_of_not_lt hge)] at hi

theorem depth_source (h : Invariant adj maxDepth source expanded s) : s.depth source = 0 :=
  depth_eq h.source_visit

theorem parent?_source (h : Invariant adj maxDepth source expanded s) :
    s.parent? source = none := by
  rw [parent?, h.source_visit]
  rfl

theorem depth_le_bound (h : Invariant adj maxDepth source expanded s) {i : Nat}
    (hi : (s.visit? i).isSome = true) : s.depth i ≤ maxDepth := by
  obtain ⟨x, hx⟩ := Option.isSome_iff_exists.1 hi
  rw [depth_eq hx]
  exact h.depth_le i x hx

/-- Reached positions lie at most one edge behind the front of the queue. -/
theorem depth_le_front (h : Invariant adj maxDepth source expanded s) {current : Nat}
    {rest : List Nat} (hqueue : s.queue = current :: rest) {i : Nat}
    (hi : (s.visit? i).isSome = true) : s.depth i ≤ s.depth current + 1 := by
  rcases List.mem_append.1 ((h.visited_iff i).1 hi) with hexpanded | hqueued
  · have hle := (List.pairwise_append.1 h.ordered).2.2 i hexpanded current (by simp [hqueue])
    omega
  · exact h.spread current rest hqueue i hqueued

theorem front_visited (h : Invariant adj maxDepth source expanded s) {current : Nat}
    {rest : List Nat} (hqueue : s.queue = current :: rest) : (s.visit? current).isSome = true :=
  (h.visited_iff current).2 (by simp [hqueue])

section Discovery

variable (h : Invariant adj maxDepth source expanded s) {current : Nat} {rest new : List Nat}
  (hqueue : s.queue = current :: rest) {t : Search} (d : Discovers adj maxDepth current new s t)
include h d

theorem nodup_discover : (expanded ++ t.queue).Nodup := by
  rw [d.order_eq, List.nodup_append]
  refine ⟨h.nodup, d.nodup, ?_⟩
  rintro i hi _ hnew rfl
  have hvisited := (h.visited_iff i).2 hi
  rw [(d.unreached i hnew).2.2] at hvisited
  cases hvisited

theorem depth_le_discover {i : Nat} {x : Visit} (hx : t.visit? i = some x) :
    x.depth ≤ maxDepth := by
  by_cases hi : i ∈ new
  · obtain rfl := Option.some.inj ((d.visit?_of_mem hi).symm.trans hx)
    exact (d.unreached i hi).1
  · rw [d.visit?_eq, if_neg hi] at hx
    exact h.depth_le i x hx

theorem expanded_edges_discover {i : Nat} (hi : i ∈ expanded) (hlt : t.depth i < maxDepth)
    {j : Nat} (hj : adj.Succ i j) :
    (t.visit? j).isSome = true ∧ t.depth j ≤ t.depth i + 1 := by
  have hvisited := (h.visited_iff i).2 (List.mem_append_left _ hi)
  rw [d.depth_of_visited hvisited] at hlt ⊢
  obtain ⟨hjvisited, hle⟩ := h.expanded_edges i hi hlt j hj
  obtain ⟨x, hx⟩ := Option.isSome_iff_exists.1 hjvisited
  rw [d.visit?_of_visited hx, d.depth_of_visited hjvisited]
  exact ⟨rfl, hle⟩

include hqueue

theorem parent_visit_discover {i : Nat} {x : Visit} (hx : t.visit? i = some x)
    (hne : i ≠ source) : ∃ p y, x.parent = some p ∧ t.visit? p = some y ∧
      adj.Succ p i ∧ x.depth = y.depth + 1 := by
  by_cases hi : i ∈ new
  · obtain rfl := Option.some.inj ((d.visit?_of_mem hi).symm.trans hx)
    obtain ⟨y, hy⟩ := Option.isSome_iff_exists.1 (h.front_visited hqueue)
    refine ⟨current, y, rfl, d.visit?_of_visited hy, (d.unreached i hi).2.1, ?_⟩
    rw [depth_eq hy]
  · rw [d.visit?_eq, if_neg hi] at hx
    obtain ⟨p, y, hp, hy, hedge, hdepth⟩ := h.parent_visit i x hx hne
    exact ⟨p, y, hp, d.visit?_of_visited hy, hedge, hdepth⟩

theorem ordered_discover : (expanded ++ t.queue).Pairwise fun i j => t.depth i ≤ t.depth j := by
  have hold : ∀ i ∈ expanded ++ s.queue, t.depth i = s.depth i :=
    fun i hi => d.depth_of_visited ((h.visited_iff i).2 hi)
  rw [d.order_eq, List.pairwise_append]
  refine ⟨h.ordered.imp_of_mem fun {i j} hi hj hij => ?_,
    List.pairwise_of_forall_mem_list fun i hi j hj => ?_, fun i hi j hj => ?_⟩
  · rwa [hold i hi, hold j hj]
  · rw [d.depth_of_mem hi, d.depth_of_mem hj]
  · rw [hold i hi, d.depth_of_mem hj]
    exact h.depth_le_front hqueue ((h.visited_iff i).2 hi)

theorem depth_queue_discover {i : Nat} (hi : i ∈ t.queue) :
    t.depth i ≤ s.depth current + 1 := by
  rw [d.queue_eq] at hi
  rcases List.mem_append.1 hi with hi | hi
  · have hvisited := (h.visited_iff i).2 (List.mem_append_right _ hi)
    rw [d.depth_of_visited hvisited]
    exact h.depth_le_front hqueue hvisited
  · exact (d.depth_of_mem hi).le

/-- What is discovered from the front, with the front in its place, keeps everything that holds. -/
theorem discover : Invariant adj maxDepth source expanded t where
  size_eq := d.size_eq.trans h.size_eq
  visited_iff i := by
    rw [d.order_eq, List.mem_append, ← h.visited_iff, d.visit?_eq]
    by_cases hi : i ∈ new <;> simp [hi]
  nodup := h.nodup_discover d
  source_visit := d.visit?_of_visited h.source_visit
  parent_visit _ _ hx hne := h.parent_visit_discover hqueue d hx hne
  depth_le _ _ hx := h.depth_le_discover d hx
  expanded_edges _ hi hlt _ hj := h.expanded_edges_discover d hi hlt hj
  ordered := h.ordered_discover hqueue d
  spread front others hfront i hi := by
    rw [d.queue_eq, hqueue] at hfront
    obtain rfl : current = front := (List.cons.inj hfront).1
    rw [d.depth_of_visited (h.front_visited hqueue)]
    exact h.depth_queue_discover hqueue d hi

end Discovery

/-- The front can go once its edges are accounted for. -/
theorem takeFront {current : Nat} (h : Invariant adj maxDepth source expanded
    ⟨s.visits, current :: s.queue⟩) (edges : s.depth current < maxDepth → ∀ j,
      adj.Succ current j → (s.visit? j).isSome = true) :
    Invariant adj maxDepth source (expanded ++ [current]) s := by
  have order : expanded ++ [current] ++ s.queue = expanded ++ current :: s.queue :=
    List.append_assoc ..
  exact {
    size_eq := h.size_eq
    visited_iff := order ▸ h.visited_iff
    nodup := order ▸ h.nodup
    source_visit := h.source_visit
    parent_visit := h.parent_visit
    depth_le := h.depth_le
    expanded_edges := by
      intro i hi hlt j hj
      rcases List.mem_append.1 hi with hi | hi
      · exact h.expanded_edges i hi hlt j hj
      · obtain rfl := List.mem_singleton.1 hi
        have hvisited := edges hlt j hj
        exact ⟨hvisited, h.depth_le_front rfl hvisited⟩
    ordered := order ▸ h.ordered
    spread := by
      intro front others hfront i hi
      have hqueued : front ∈ s.queue := by simp [hfront]
      have hfirst : s.depth current ≤ s.depth front :=
        (List.pairwise_cons.1 (List.pairwise_append.1 h.ordered).2.1).1 front hqueued
      have hlast : s.depth i ≤ s.depth current + 1 :=
        h.spread current s.queue rfl i (List.mem_cons_of_mem _ hi)
      omega }

section Step

variable (h : Invariant adj maxDepth source expanded s) (closed : adj.Closed) {current : Nat}
  {rest : List Nat} (hqueue : s.queue = current :: rest)
include h closed hqueue

theorem visit?_expand (i : Nat) : (s.expand adj maxDepth).visit? i =
    if i ∈ discovered adj maxDepth s current then some ⟨some current, s.depth current + 1⟩
    else s.visit? i :=
  (expand_spec closed maxDepth hqueue h.size_eq (h.front_visited hqueue)).2.2 i

/-- With the front put back, a step is a discovery. -/
theorem discovers_expand : Discovers adj maxDepth current (discovered adj maxDepth s current) s
    ⟨(s.expand adj maxDepth).visits, current :: (s.expand adj maxDepth).queue⟩ := by
  obtain ⟨hq, hs, hv⟩ := expand_spec closed maxDepth hqueue h.size_eq (h.front_visited hqueue)
  refine ⟨?_, hs.trans h.size_eq.symm, hv, discovered_nodup closed maxDepth s current,
    fun i hi => mem_discovered_iff.1 hi⟩
  rw [hq, hqueue, List.cons_append]

theorem order_expand : expanded ++ [current] ++ (s.expand adj maxDepth).queue =
    expanded ++ s.queue ++ discovered adj maxDepth s current := by
  rw [← (h.discovers_expand closed hqueue).order_eq, List.append_assoc, List.singleton_append]

theorem depth_expand_of_visited {i : Nat} (hi : (s.visit? i).isSome = true) :
    (s.expand adj maxDepth).depth i = s.depth i :=
  (h.discovers_expand closed hqueue).depth_of_visited hi

/-- Expanding the front of the queue keeps everything that holds. -/
theorem expand :
    Invariant adj maxDepth source (expanded ++ [current]) (s.expand adj maxDepth) := by
  have d := h.discovers_expand closed hqueue
  refine (h.discover hqueue d).takeFront fun hlt j hj => ?_
  rw [h.depth_expand_of_visited closed hqueue (h.front_visited hqueue)] at hlt
  -- a successor was reached before or is discovered now
  rw [h.visit?_expand closed hqueue]
  cases hvisit : s.visit? j with
  | some x => split <;> rfl
  | none => rw [if_pos (mem_discovered_iff.2 ⟨hlt, hj, hvisit⟩), Option.isSome_some]

end Step

/-! ### Distances and routes -/

/-- A walk within the depth bound either has reached its end, no later than it should, or crosses
the queue on its way. -/
theorem walk_reached (h : Invariant adj maxDepth source expanded s) {n i : Nat}
    (walk : Hops adj.Succ source n i) (hn : n ≤ maxDepth) :
    ((s.visit? i).isSome = true ∧ s.depth i ≤ n) ∨ ∃ j ∈ s.queue, s.depth j < n := by
  induction walk with
  | stay =>
    rw [h.depth_source, h.source_visit]
    exact Or.inl ⟨rfl, Nat.le_refl _⟩
  | @step n k j _ edge ih =>
    -- the walk so far has come to an expanded position, to the queue or across it
    rcases ih (by omega) with ⟨hvisited, hle⟩ | ⟨m, hm, hlt⟩
    · rcases List.mem_append.1 ((h.visited_iff k).1 hvisited) with hexpanded | hqueued
      · obtain ⟨hj, hdepth⟩ := h.expanded_edges k hexpanded (by omega) j edge
        exact Or.inl ⟨hj, by omega⟩
      · exact Or.inr ⟨k, hqueued, by omega⟩
    · exact Or.inr ⟨m, hm, by omega⟩

/-- The depth of the front of the queue is its distance. -/
theorem front_depth_le (h : Invariant adj maxDepth source expanded s) {current : Nat}
    {rest : List Nat} (hqueue : s.queue = current :: rest) {n : Nat}
    (walk : Hops adj.Succ source n current) : s.depth current ≤ n := by
  by_cases hn : n ≤ maxDepth
  · rcases h.walk_reached walk hn with ⟨_, hle⟩ | ⟨j, hj, hlt⟩
    · exact hle
    · have hordered : s.queue.Pairwise fun i j => s.depth i ≤ s.depth j :=
        (List.pairwise_append.1 h.ordered).2.1
      rw [hqueue] at hordered hj
      rcases List.mem_cons.1 hj with rfl | hj
      · omega
      · have hle := (List.pairwise_cons.1 hordered).1 j hj
        omega
  · -- a longer walk than the bound is longer than any depth
    have hle := h.depth_le_bound (h.front_visited hqueue)
    omega

theorem chain_source (h : Invariant adj maxDepth source expanded s) (fuel : Nat) :
    s.chain fuel source = [source] := by
  cases fuel with
  | zero => rfl
  | succ fuel => rw [chain, h.parent?_source]

/-- The chain of parents of a reached position is a route to it, of one edge for each unit of its
depth. -/
theorem chain_spec (h : Invariant adj maxDepth source expanded s) (fuel : Nat) {i : Nat}
    {x : Visit} (hx : s.visit? i = some x) (enough : x.depth ≤ fuel) :
    Route adj.Succ source i (s.chain fuel i) ∧ (s.chain fuel i).length = x.depth + 1 ∧
      ∀ j ∈ s.chain fuel i, (s.visit? j).isSome = true ∧ s.depth j ≤ x.depth := by
  induction fuel generalizing i x with
  | zero =>
    by_cases hi : i = source
    · subst hi
      obtain rfl := Option.some.inj (h.source_visit.symm.trans hx)
      exact ⟨.single i, rfl, by simp [chain, h.source_visit, depth_eq h.source_visit]⟩
    · obtain ⟨p, y, _, _, _, hdepth⟩ := h.parent_visit i x hx hi
      omega
  | succ fuel ih =>
    by_cases hi : i = source
    · subst hi
      obtain rfl := Option.some.inj (h.source_visit.symm.trans hx)
      rw [h.chain_source]
      exact ⟨.single i, rfl, by simp [h.source_visit, depth_eq h.source_visit]⟩
    · obtain ⟨p, y, hp, hy, edge, hdepth⟩ := h.parent_visit i x hx hi
      have hparent : s.parent? i = some p := by rw [parent?, hx]; exact hp
      obtain ⟨route, length_eq, below⟩ := ih hy (by omega)
      -- depths fall along parents, so that a position is none of its own ancestors
      have fresh : i ∉ s.chain fuel p := by
        intro hmem
        have hle := (below i hmem).2
        rw [depth_eq hx] at hle
        omega
      rw [chain, hparent]
      refine ⟨route.snoc edge fresh, by simp [length_eq, hdepth], fun j hj => ?_⟩
      rcases List.mem_append.1 hj with hj | hj
      · have hj := below j hj
        exact ⟨hj.1, by omega⟩
      · obtain rfl := List.mem_singleton.1 hj
        rw [depth_eq hx, hx]
        exact ⟨rfl, Nat.le_refl _⟩

theorem length_le_size {l : List Nat} (nodup : l.Nodup) {n : Nat} (hl : ∀ i ∈ l, i < n) :
    l.length ≤ n := by
  have hsubset : l ⊆ List.range n := fun i hi => List.mem_range.2 (hl i hi)
  simpa using (List.subperm_of_subset nodup hsubset).length_le

/-- Depths are smaller than the number of positions. -/
theorem depth_lt_size (h : Invariant adj maxDepth source expanded s) {i : Nat} {x : Visit}
    (hx : s.visit? i = some x) : x.depth < adj.size := by
  obtain ⟨route, length_eq, below⟩ := h.chain_spec x.depth hx (Nat.le_refl _)
  have hle := length_le_size route.nodup fun j hj => h.lt_size (below j hj).1
  omega

/-- No position is expanded twice, so that an exhausted search has nothing left in its queue. -/
theorem queue_eq_nil (h : Invariant adj maxDepth source expanded s)
    (exhausted : adj.size ≤ expanded.length) : s.queue = [] := by
  have hle := length_le_size h.nodup fun i hi => h.lt_size ((h.visited_iff i).2 hi)
  rw [List.length_append] at hle
  exact List.length_eq_zero_iff.1 (by omega)

/-- A search that ends without its target has met no walk to it within the bound. -/
theorem no_walk (h : Invariant adj maxDepth source expanded s) {target : Nat}
    (htarget : target ∉ expanded) (hqueue : s.queue = []) {n : Nat} (hn : n ≤ maxDepth) :
    ¬ Hops adj.Succ source n target := by
  intro walk
  rcases h.walk_reached walk hn with ⟨hvisited, _⟩ | ⟨j, hj, _⟩
  · have hmem := (h.visited_iff target).1 hvisited
    rw [hqueue, List.append_nil] at hmem
    exact htarget hmem
  · rw [hqueue] at hj
    cases hj

end Invariant

/-- What a search answers: a shortest route within the bound, or that there is no walk within the
bound. -/
def Answer (adj : Adjacency) (maxDepth source target : Nat) : Option (List Nat) → Prop
  | some path => Route adj.Succ source target path ∧ (∀ i ∈ path, i < adj.size) ∧
      path.length ≤ maxDepth + 1 ∧ ∀ n, Hops adj.Succ source n target → path.length ≤ n + 1
  | none => ∀ n ≤ maxDepth, ¬ Hops adj.Succ source n target

/-- The steps that are left suffice, since each of them expands another position. -/
theorem answer_run {adj : Adjacency} (closed : adj.Closed) {maxDepth source target : Nat}
    {expanded : List Nat} {s : Search} (h : Invariant adj maxDepth source expanded s)
    (htarget : target ∉ expanded) (fuel : Nat) (enough : adj.size ≤ fuel + expanded.length) :
    Answer adj maxDepth source target (run adj maxDepth target fuel s) := by
  induction fuel generalizing s expanded with
  | zero =>
    intro n hn
    exact h.no_walk htarget (h.queue_eq_nil (by omega)) hn
  | succ fuel ih =>
    unfold run
    split
    · rename_i hqueue
      intro n hn
      exact h.no_walk htarget hqueue hn
    · rename_i current rest hqueue
      split
      · rename_i heq
        subst heq
        obtain ⟨x, hx⟩ := Option.isSome_iff_exists.1 (h.front_visited hqueue)
        obtain ⟨route, length_eq, below⟩ :=
          h.chain_spec adj.size hx (Nat.le_of_lt (h.depth_lt_size hx))
        refine ⟨route, fun i hi => h.lt_size (below i hi).1, ?_, fun n walk => ?_⟩
        · have hle := h.depth_le current x hx
          omega
        · have hle := h.front_depth_le hqueue walk
          rw [depth_eq hx] at hle
          omega
      · rename_i hne
        refine ih (h.expand closed hqueue) ?_ ?_
        · simp [htarget, Ne.symm hne]
        · rw [List.length_append, List.length_singleton]
          omega

end Search

/-- The search from a position finds a shortest route within the bound, or there is none. -/
theorem Adjacency.answer_shortestPath? {adj : Adjacency} (closed : adj.Closed)
    (maxDepth : Nat) {source : Nat} (hsource : source < adj.size) (target : Nat) :
    Search.Answer adj maxDepth source target (adj.shortestPath? maxDepth source target) :=
  Search.answer_run closed (Search.invariant_start hsource maxDepth) (by simp) adj.size (by simp)

end Federation
