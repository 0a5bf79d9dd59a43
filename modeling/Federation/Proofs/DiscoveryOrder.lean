import Federation.Proofs.BreadthFirst

/-!
# The order of discovery

Between two positions there may be several shortest trails. They can be compared by the choices that
are made on them: at each place, where the next one stands among the successors. A search discovers
the positions of one depth in the order of their first trails, so that the chain of parents of a
position is the first of all shortest trails that lead there.
-/

namespace Federation

universe u v

section Choices

variable {α : Type u} {β : Type v} [DecidableEq α] [DecidableEq β]

/-- For each place of a path but the last, where the next place stands among those that follow. -/
def choices (next : α → List α) : List α → List Nat
  | a :: b :: rest => (next a).idxOf b :: choices next (b :: rest)
  | _ => []

theorem choices_concat (next : α → List α) {path : List α} {a : α} (h : path.getLast? = some a)
    (b : α) : choices next (path ++ [b]) = choices next path ++ [(next a).idxOf b] := by
  induction path with
  | nil => cases h
  | cons first rest ih =>
    cases rest with
    | nil =>
      obtain rfl : first = a := by simpa using h
      rfl
    | cons second rest => exact congrArg (_ :: ·) (ih (by simpa using h))

theorem length_choices (next : α → List α) (path : List α) :
    (choices next path).length = path.length - 1 := by
  induction path with
  | nil => rfl
  | cons first rest ih =>
    cases rest with
    | nil => rfl
    | cons second rest => exact congrArg Nat.succ ih

/-- Where each step is the same choice, whole paths are the same choices. -/
theorem choices_map {next : α → List α} {next' : β → List β} {f : α → β} {path : List α}
    (h : path.IsChain fun a b => (next' (f a)).idxOf (f b) = (next a).idxOf b) :
    choices next' (path.map f) = choices next path := by
  induction path with
  | nil => rfl
  | cons first rest ih =>
    cases rest with
    | nil => rfl
    | cons second rest =>
      obtain ⟨hfirst, hrest⟩ := List.isChain_cons_cons.1 h
      exact List.cons_eq_cons.2 ⟨hfirst, ih hrest⟩

/-- Of lists with one length the order is decided before what is appended. -/
theorem append_lt_append {l l' : List Nat} (h : l < l') (hlength : l.length = l'.length)
    (m m' : List Nat) : l ++ m < l' ++ m' := by
  induction h with
  | nil => cases hlength
  | rel hlt => exact .rel hlt
  | cons _ ih => exact .cons (ih (Nat.succ.inj hlength))

theorem idxOf_lt_of_sublist {l : List α} (nodup : l.Nodup) {a b : α} (h : [a, b].Sublist l) :
    l.idxOf a < l.idxOf b := by
  have hordered : l.Pairwise fun a b => l.idxOf a < l.idxOf b := by
    rw [List.pairwise_iff_getElem]
    intro i j hi hj hlt
    rwa [nodup.idxOf_getElem, nodup.idxOf_getElem]
  exact List.pairwise_iff_forall_sublist.1 hordered h

end Choices

namespace Search

variable {adj : Adjacency} {maxDepth source : Nat} {expanded : List Nat} {s : Search}

/-! ### Parents -/

theorem exists_visit_of_parent? {i p : Nat} (h : s.parent? i = some p) :
    ∃ x, s.visit? i = some x ∧ x.parent = some p :=
  Option.bind_eq_some_iff.1 h

namespace Invariant

variable (h : Invariant adj maxDepth source expanded s)
include h

/-- What is known of a position that has a parent. -/
theorem parent?_spec {i p : Nat} (hp : s.parent? i = some p) :
    (s.visit? i).isSome = true ∧ (s.visit? p).isSome = true ∧ adj.Succ p i ∧
      s.depth i = s.depth p + 1 := by
  obtain ⟨x, hx, hparent⟩ := exists_visit_of_parent? hp
  have hne : i ≠ source := by
    rintro rfl
    rw [h.parent?_source] at hp
    cases hp
  obtain ⟨p', y, hp', hy, edge, hdepth⟩ := h.parent_visit i x hx hne
  obtain rfl := Option.some.inj (hparent.symm.trans hp')
  rw [hx, hy, depth_eq hx, depth_eq hy]
  exact ⟨rfl, rfl, edge, hdepth⟩

theorem exists_parent? {i : Nat} (hi : (s.visit? i).isSome = true) (hne : i ≠ source) :
    ∃ p, s.parent? i = some p := by
  obtain ⟨x, hx⟩ := Option.isSome_iff_exists.1 hi
  obtain ⟨p, _, hp, -⟩ := h.parent_visit i x hx hne
  exact ⟨p, Option.bind_eq_some_iff.2 ⟨x, hx, hp⟩⟩

/-- Only the source is reached without an edge. -/
theorem eq_source_of_depth {i : Nat} (hi : (s.visit? i).isSome = true) (hdepth : s.depth i = 0) :
    i = source := by
  by_contra hne
  obtain ⟨p, hp⟩ := h.exists_parent? hi hne
  have hspec := (h.parent?_spec hp).2.2.2
  omega

end Invariant

/-! ### What the order of discovery says of parents -/

/-- Positions are discovered in the order of their parents, and the parent of a position is the
first of those that have an edge to it. -/
structure Discovery (adj : Adjacency) (maxDepth : Nat) (expanded : List Nat) (s : Search) :
    Prop where
  parent_expanded : ∀ i p, s.parent? i = some p → p ∈ expanded
  /-- Positions with one parent come in the order of its successors. -/
  parents_ordered : (expanded ++ s.queue).Pairwise fun i j => ∀ p q, s.parent? i = some p →
    s.parent? j = some q →
      [p, q].Sublist (expanded ++ s.queue) ∨ p = q ∧ [i, j].Sublist (adj.successors p)
  parent_first : ∀ i p, s.parent? i = some p → ∀ k ∈ expanded ++ s.queue, adj.Succ k i →
    s.depth k < maxDepth → k = p ∨ [p, k].Sublist (expanded ++ s.queue)

theorem discovery_start (adj : Adjacency) {source : Nat} (h : source < adj.size)
    (maxDepth : Nat) : Discovery adj maxDepth [] (start adj.size source) := by
  have hparent : ∀ i, (start adj.size source).parent? i = none := by
    intro i
    rw [parent?, visit?_start h]
    split <;> rfl
  exact ⟨by simp [hparent], List.pairwise_singleton _ _, by simp [hparent]⟩

theorem discovered_sublist (adj : Adjacency) (maxDepth : Nat) (s : Search) (current : Nat) :
    (discovered adj maxDepth s current).Sublist (adj.successors current) := by
  unfold discovered
  split
  · exact List.nil_sublist _
  · exact List.filter_sublist

theorem sublist_of_mem_append {l l' : List Nat} {a b : Nat} (ha : a ∈ l) (hb : b ∈ l') :
    [a, b].Sublist (l ++ l') :=
  List.Sublist.append (List.singleton_sublist.2 ha) (List.singleton_sublist.2 hb)

namespace Discovery

section Step

variable (d : Discovery adj maxDepth expanded s) (h : Invariant adj maxDepth source expanded s)
  (closed : adj.Closed) {current : Nat} {rest : List Nat} (hqueue : s.queue = current :: rest)
include h closed hqueue

theorem parent?_expand (i : Nat) : (s.expand adj maxDepth).parent? i =
    if i ∈ discovered adj maxDepth s current then some current else s.parent? i := by
  rw [parent?, h.visit?_expand closed hqueue]
  split <;> rfl

theorem parent?_expand_of_mem {i : Nat} (hi : i ∈ expanded ++ s.queue) :
    (s.expand adj maxDepth).parent? i = s.parent? i := by
  rw [parent?_expand h closed hqueue, if_neg (not_mem_discovered ((h.visited_iff i).2 hi))]

theorem eq_of_parent?_expand {i p : Nat} (hi : i ∈ discovered adj maxDepth s current)
    (hp : (s.expand adj maxDepth).parent? i = some p) : current = p := by
  rw [parent?_expand h closed hqueue, if_pos hi] at hp
  exact Option.some.inj hp

include d

theorem parent_expanded_expand {i p : Nat} (hp : (s.expand adj maxDepth).parent? i = some p) :
    p ∈ expanded ++ [current] := by
  by_cases hi : i ∈ discovered adj maxDepth s current
  · obtain rfl := eq_of_parent?_expand h closed hqueue hi hp
    simp
  · rw [parent?_expand h closed hqueue, if_neg hi] at hp
    exact List.mem_append_left _ (d.parent_expanded i p hp)

theorem parents_ordered_expand :
    (expanded ++ [current] ++ (s.expand adj maxDepth).queue).Pairwise fun i j => ∀ p q,
      (s.expand adj maxDepth).parent? i = some p → (s.expand adj maxDepth).parent? j = some q →
        [p, q].Sublist (expanded ++ [current] ++ (s.expand adj maxDepth).queue) ∨
          p = q ∧ [i, j].Sublist (adj.successors p) := by
  rw [h.order_expand closed hqueue, List.pairwise_append]
  refine ⟨d.parents_ordered.imp_of_mem ?_, List.pairwise_iff_forall_sublist.2 ?_, ?_⟩
  · intro i j hi hj ordered p q hp hq
    rw [parent?_expand_of_mem h closed hqueue hi] at hp
    rw [parent?_expand_of_mem h closed hqueue hj] at hq
    exact (ordered p q hp hq).imp_left fun hsub => hsub.trans (List.sublist_append_left _ _)
  · intro i j hsub p q hp hq
    have hi : i ∈ discovered adj maxDepth s current := hsub.subset (by simp)
    have hj : j ∈ discovered adj maxDepth s current := hsub.subset (by simp)
    obtain rfl := eq_of_parent?_expand h closed hqueue hi hp
    obtain rfl := eq_of_parent?_expand h closed hqueue hj hq
    exact Or.inr ⟨rfl, hsub.trans (discovered_sublist adj maxDepth s current)⟩
  · -- what is new comes after what had its parent expanded before
    intro i hi j hj p q hp hq
    rw [parent?_expand_of_mem h closed hqueue hi] at hp
    obtain rfl := eq_of_parent?_expand h closed hqueue hj hq
    have hbefore : [p, current].Sublist (expanded ++ s.queue) :=
      sublist_of_mem_append (d.parent_expanded i p hp) (by simp [hqueue])
    exact Or.inl (hbefore.trans (List.sublist_append_left _ _))

theorem parent_first_expand {i p : Nat} (hp : (s.expand adj maxDepth).parent? i = some p)
    {k : Nat} (hk : k ∈ expanded ++ [current] ++ (s.expand adj maxDepth).queue)
    (edge : adj.Succ k i) (hlt : (s.expand adj maxDepth).depth k < maxDepth) :
    k = p ∨ [p, k].Sublist (expanded ++ [current] ++ (s.expand adj maxDepth).queue) := by
  rw [h.order_expand closed hqueue] at hk ⊢
  have hparent := d.parent_expanded_expand h closed hqueue hp
  rcases List.mem_append.1 hk with hold | hnew
  · rw [h.depth_expand_of_visited closed hqueue ((h.visited_iff k).2 hold)] at hlt
    by_cases hi : i ∈ discovered adj maxDepth s current
    · obtain rfl := eq_of_parent?_expand h closed hqueue hi hp
      rw [hqueue] at hold ⊢
      rcases List.mem_append.1 hold with hexpanded | hqueued
      · -- an edge from a position that is expanded leads to nothing new
        have hvisited := (h.expanded_edges k hexpanded hlt i edge).1
        exact absurd hi (not_mem_discovered hvisited)
      · rcases List.mem_cons.1 hqueued with rfl | hrest
        · exact Or.inl rfl
        · have hbefore : [current, k].Sublist (current :: rest) :=
            (List.singleton_sublist.2 hrest).cons_cons current
          exact Or.inr (hbefore.trans ((List.sublist_append_right _ _).trans
            (List.sublist_append_left _ _)))
    · rw [parent?_expand h closed hqueue, if_neg hi] at hp
      exact (d.parent_first i p hp k hold edge hlt).imp_right fun hsub =>
        hsub.trans (List.sublist_append_left _ _)
  · have hmem : p ∈ expanded ++ s.queue := by
      rw [hqueue]
      rcases List.mem_append.1 hparent with hp | hp
      · exact List.mem_append_left _ hp
      · exact List.mem_append_right _ (by simp [List.mem_singleton.1 hp])
    exact Or.inr (sublist_of_mem_append hmem hnew)

/-- Expanding the front of the queue keeps the order of discovery. -/
theorem expand : Discovery adj maxDepth (expanded ++ [current]) (s.expand adj maxDepth) where
  parent_expanded _ _ hp := d.parent_expanded_expand h closed hqueue hp
  parents_ordered := d.parents_ordered_expand h closed hqueue
  parent_first _ _ hp _ hk edge hlt := d.parent_first_expand h closed hqueue hp hk edge hlt

end Step

end Discovery

/-! ### Chains of parents -/

/-- The chain of parents of a position. -/
def trace (s : Search) (i : Nat) : List Nat :=
  s.chain (s.depth i) i

namespace Invariant

variable (h : Invariant adj maxDepth source expanded s)
include h

theorem trace_source : s.trace source = [source] :=
  h.chain_source _

theorem trace_of_parent? {i p : Nat} (hp : s.parent? i = some p) :
    s.trace i = s.trace p ++ [i] := by
  rw [trace, (h.parent?_spec hp).2.2.2, chain, hp]
  rfl

theorem chain_eq_trace {fuel i : Nat} (hi : (s.visit? i).isSome = true)
    (enough : s.depth i ≤ fuel) : s.chain fuel i = s.trace i := by
  induction fuel generalizing i with
  | zero =>
    obtain rfl := h.eq_source_of_depth hi (Nat.le_zero.1 enough)
    rw [h.trace_source, h.chain_source]
  | succ fuel ih =>
    by_cases hsource : i = source
    · subst hsource
      rw [h.trace_source, h.chain_source]
    · obtain ⟨p, hp⟩ := h.exists_parent? hi hsource
      obtain ⟨-, hvisited, -, hdepth⟩ := h.parent?_spec hp
      rw [chain, hp, h.trace_of_parent? hp]
      exact congrArg (· ++ [i]) (ih hvisited (by omega))

theorem trace_spec {i : Nat} (hi : (s.visit? i).isSome = true) :
    Route adj.Succ source i (s.trace i) ∧ (s.trace i).length = s.depth i + 1 := by
  obtain ⟨x, hx⟩ := Option.isSome_iff_exists.1 hi
  obtain ⟨route, length_eq, -⟩ := h.chain_spec x.depth hx (Nat.le_refl _)
  rw [trace, depth_eq hx]
  exact ⟨route, length_eq⟩

theorem choices_trace {i p : Nat} (hp : s.parent? i = some p) :
    choices adj.successors (s.trace i) =
      choices adj.successors (s.trace p) ++ [(adj.successors p).idxOf i] := by
  rw [h.trace_of_parent? hp]
  exact choices_concat _ (h.trace_spec (h.parent?_spec hp).2.1).1.last i

theorem length_choices_trace {i : Nat} (hi : (s.visit? i).isSome = true) :
    (choices adj.successors (s.trace i)).length = s.depth i := by
  rw [length_choices, (h.trace_spec hi).2, Nat.add_sub_cancel]

/-- An expanded position is no deeper than one in the queue. -/
theorem depth_le_of_queued {i j : Nat} (hi : i ∈ expanded) (hj : j ∈ s.queue) :
    s.depth i ≤ s.depth j :=
  (List.pairwise_append.1 h.ordered).2.2 i hi j hj

end Invariant

namespace Discovery

variable (d : Discovery adj maxDepth expanded s) (h : Invariant adj maxDepth source expanded s)
  (closed : adj.Closed)
include d h closed

/-- Of two positions of one depth, the one that is discovered first has the first chain. -/
theorem choices_trace_lt {n i j : Nat} (before : [i, j].Sublist (expanded ++ s.queue))
    (hi : s.depth i = n) (hj : s.depth j = n) :
    choices adj.successors (s.trace i) < choices adj.successors (s.trace j) := by
  have visited : ∀ k ∈ [i, j], (s.visit? k).isSome = true := fun k hk =>
    (h.visited_iff k).2 (before.subset hk)
  have hivisited := visited i (by simp)
  have hjvisited := visited j (by simp)
  induction n generalizing i j with
  | zero =>
    obtain rfl := h.eq_source_of_depth hivisited hi
    obtain rfl := h.eq_source_of_depth hjvisited hj
    have hnodup := before.nodup h.nodup
    simp at hnodup
  | succ n ih =>
    have hsource := h.depth_source
    obtain ⟨p, hp⟩ := h.exists_parent? hivisited (by rintro rfl; omega)
    obtain ⟨q, hq⟩ := h.exists_parent? hjvisited (by rintro rfl; omega)
    obtain ⟨-, hpvisited, -, hpdepth⟩ := h.parent?_spec hp
    obtain ⟨-, hqvisited, -, hqdepth⟩ := h.parent?_spec hq
    rw [h.choices_trace hp, h.choices_trace hq]
    rcases List.pairwise_iff_forall_sublist.1 d.parents_ordered before p q hp hq with
      parents | ⟨rfl, order⟩
    · have hlt := ih parents (by omega) (by omega) (by simp [hpvisited, hqvisited]) hpvisited
        hqvisited
      refine append_lt_append hlt ?_ _ _
      rw [h.length_choices_trace hpvisited, h.length_choices_trace hqvisited]
      omega
    · have hlt := idxOf_lt_of_sublist (closed.successors_nodup p) order
      exact List.append_left_lt (.rel hlt)

omit d closed in
/-- The last place but one of a shortest trail is no deeper than the parent and no less deep. -/
theorem depth_of_shortest {i p k : Nat} (hp : s.parent? i = some p) (hexpanded : p ∈ expanded)
    (walk : Hops adj.Succ source (s.depth p) k) (edge : adj.Succ k i) :
    (s.visit? k).isSome = true ∧ s.depth k = s.depth p := by
  obtain ⟨hvisited, -, -, hdepth⟩ := h.parent?_spec hp
  have hbound := h.depth_le_bound hvisited
  rcases h.walk_reached walk (by omega) with ⟨hk, hle⟩ | ⟨m, hm, hlt⟩
  · refine ⟨hk, Nat.le_antisymm hle ?_⟩
    rcases List.mem_append.1 ((h.visited_iff k).1 hk) with hkexpanded | hkqueued
    · have hreached := (h.expanded_edges k hkexpanded (by omega) i edge).2
      omega
    · exact h.depth_le_of_queued hexpanded hkqueued
  · have hle := h.depth_le_of_queued hexpanded hm
    omega

/-- The chain of parents of a position comes before all other trails that are as short. -/
theorem eq_trace_or_lt {i : Nat} {places : List Nat} (hi : (s.visit? i).isSome = true)
    (trail : Trail adj.Succ source i places) (hlength : places.length = s.depth i + 1) :
    places = s.trace i ∨ choices adj.successors (s.trace i) < choices adj.successors places := by
  induction places using List.reverseRecOn generalizing i with
  | nil => cases trail.head
  | append_singleton before last ih =>
    rcases trail.eq_or_exists_concat with ⟨rfl, hplaces⟩ | ⟨before', k, hplaces, hbefore, edge⟩
    · rw [hplaces, h.trace_source]
      exact Or.inl rfl
    · obtain ⟨rfl, hlast⟩ := List.append_inj' hplaces rfl
      obtain rfl : i = last := by simpa using hlast.symm
      have hpos : 0 < before.length := List.length_pos_iff.2 hbefore.ne_nil
      rw [List.length_append, List.length_singleton] at hlength
      have hsource := h.depth_source
      obtain ⟨p, hp⟩ := h.exists_parent? hi (by rintro rfl; omega)
      obtain ⟨-, hpvisited, -, hpdepth⟩ := h.parent?_spec hp
      have hwalk : Hops adj.Succ source (s.depth p) k := by
        have hhops := hbefore.hops
        rwa [show before.length - 1 = s.depth p by omega] at hhops
      obtain ⟨hk, hkdepth⟩ := depth_of_shortest h hp (d.parent_expanded _ _ hp) hwalk edge
      have hbound := h.depth_le_bound hi
      -- the trail comes to the parent or to what was discovered after it
      have hparent : before = s.trace p ∨
          choices adj.successors (s.trace p) < choices adj.successors before := by
        rcases d.parent_first i p hp k ((h.visited_iff k).1 hk) edge (by omega) with rfl | later
        · exact ih hk hbefore (by omega)
        · have hlt := d.choices_trace_lt h closed later rfl hkdepth
          rcases ih hk hbefore (by omega) with rfl | hlt'
          · exact Or.inr hlt
          · exact Or.inr (List.lt_trans hlt hlt')
      rcases hparent with rfl | hlt
      · exact Or.inl (h.trace_of_parent? hp).symm
      · rw [h.choices_trace hp, choices_concat _ hbefore.last]
        refine Or.inr (append_lt_append hlt ?_ _ _)
        rw [h.length_choices_trace hpvisited, length_choices]
        omega

end Discovery

/-- What every expansion keeps holds where a search finds its target. -/
theorem exists_front_of_run {P : List Nat → Search → Prop} {target : Nat}
    (step : ∀ expanded s current rest, P expanded s → s.queue = current :: rest →
      P (expanded ++ [current]) (s.expand adj maxDepth)) {fuel : Nat} {path : List Nat}
    (holds : P expanded s) (found : run adj maxDepth target fuel s = some path) :
    ∃ expanded' s' rest, P expanded' s' ∧ s'.queue = target :: rest ∧
      path = s'.chain adj.size target := by
  induction fuel generalizing s expanded with
  | zero => cases found
  | succ fuel ih =>
    unfold run at found
    split at found
    · cases found
    · rename_i current rest hqueue
      split at found
      · rename_i heq
        subst heq
        exact ⟨expanded, s, rest, holds, hqueue, (Option.some.inj found).symm⟩
      · exact ih (step _ _ _ _ holds hqueue) found

end Search

/-- The path that is found is the first of all trails that are as short, whatever the bound. -/
theorem Adjacency.first_of_shortestPath? {adj : Adjacency} (closed : adj.Closed)
    {maxDepth source target : Nat} (hsource : source < adj.size) {path : List Nat}
    (found : adj.shortestPath? maxDepth source target = some path) {other : List Nat}
    (trail : Trail adj.Succ source target other) (hlength : other.length = path.length) :
    other = path ∨ choices adj.successors path < choices adj.successors other := by
  obtain ⟨expanded, s, rest, ⟨h, d⟩, hqueue, rfl⟩ := Search.exists_front_of_run
    (P := fun expanded s => Search.Invariant adj maxDepth source expanded s ∧
      Search.Discovery adj maxDepth expanded s)
    (fun _ _ _ _ holds hqueue =>
      ⟨holds.1.expand closed hqueue, holds.2.expand holds.1 closed hqueue⟩)
    ⟨Search.invariant_start hsource maxDepth, Search.discovery_start adj hsource maxDepth⟩ found
  have hvisited := h.front_visited hqueue
  have enough : s.depth target ≤ adj.size := by
    obtain ⟨x, hx⟩ := Option.isSome_iff_exists.1 hvisited
    rw [Search.depth_eq hx]
    exact Nat.le_of_lt (h.depth_lt_size hx)
  rw [h.chain_eq_trace hvisited enough] at hlength ⊢
  exact d.eq_trace_or_lt h closed hvisited trail (hlength.trans (h.trace_spec hvisited).2)

end Federation
