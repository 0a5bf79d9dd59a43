import Federation.Network.Snapshot
import Federation.Proofs.Outcome
import Mathlib.Data.List.Induction
import Mathlib.Data.List.Nodup

/-!
# Looking up snapshots

Every graph stands in a set under the name of its own network. Graphs of distinct networks can
always be collected, and the set then has these graphs and no others, whatever their order was. Of
graphs that share their network the first one that comes too late is reported.
-/

namespace Federation.SnapshotSet

theorem graph?_withGraph (s : SnapshotSet) (g : TrustGraph) (networkId : String) :
    (s.withGraph g).graph? networkId =
      if networkId == g.networkId then some g else s.graph? networkId :=
  Table.get?_insert s.graphs g.networkId networkId g

theorem addNew_of_graph?_eq_none {s : SnapshotSet} {g : TrustGraph}
    (h : s.graph? g.networkId = none) : s.addNew g = .ok (s.withGraph g) := by
  rw [addNew, h]
  rfl

theorem graph?_withGraph_eq_some_iff {s : SnapshotSet} {g g' : TrustGraph} {networkId : String}
    (absent : s.graph? g.networkId = none) : (s.withGraph g).graph? networkId = some g' ↔
      s.graph? networkId = some g' ∨ g' = g ∧ g'.networkId = networkId := by
  rw [graph?_withGraph]
  by_cases hid : networkId = g.networkId
  · subst hid
    rw [beq_self_eq_true, if_pos rfl, absent, Option.some.injEq]
    constructor
    · rintro rfl
      exact Or.inr ⟨rfl, rfl⟩
    · rintro (h | ⟨rfl, _⟩)
      · cases h
      · rfl
  · rw [beq_false_of_ne hid]
    constructor
    · exact Or.inl
    · rintro (old | ⟨rfl, heq⟩)
      · exact old
      · exact False.elim (hid heq.symm)

/-- Graphs of distinct networks that a set does not have yet are all added to it. -/
theorem foldlM_addNew {gs : List TrustGraph} (distinct : (gs.map (·.networkId)).Nodup)
    (s : SnapshotSet) (fresh : ∀ g ∈ gs, s.graph? g.networkId = none) :
    ∃ s', gs.foldlM addNew s = .ok s' ∧ ∀ networkId g, s'.graph? networkId = some g ↔
      s.graph? networkId = some g ∨ g ∈ gs ∧ g.networkId = networkId := by
  induction gs generalizing s with
  | nil => exact ⟨s, rfl, by simp⟩
  | cons next rest ih =>
    obtain ⟨next_new, distinct⟩ := List.nodup_cons.1 distinct
    have next_absent := fresh next List.mem_cons_self
    have rest_absent : ∀ g ∈ rest, (s.withGraph next).graph? g.networkId = none := by
      intro g hg
      have hne : g.networkId ≠ next.networkId :=
        fun heq => next_new (List.mem_map.2 ⟨g, hg, heq⟩)
      rw [graph?_withGraph, beq_false_of_ne hne]
      exact fresh g (List.mem_cons_of_mem _ hg)
    obtain ⟨s', hfold, hlookup⟩ := ih distinct (s.withGraph next) rest_absent
    refine ⟨s', ?_, ?_⟩
    · rw [List.foldlM_cons, addNew_of_graph?_eq_none next_absent]
      exact hfold
    · intro networkId g
      rw [hlookup, graph?_withGraph_eq_some_iff next_absent, or_assoc, ← or_and_right,
        List.mem_cons]

/-- The set of graphs of distinct networks finds each under the name of its network. -/
theorem exists_ofGraphs {gs : List TrustGraph} (distinct : (gs.map (·.networkId)).Nodup) :
    ∃ s, ofGraphs gs = .ok s ∧
      ∀ networkId g, s.graph? networkId = some g ↔ g ∈ gs ∧ g.networkId = networkId := by
  obtain ⟨s, hfold, hlookup⟩ := foldlM_addNew distinct empty fun _ _ => rfl
  refine ⟨s, hfold, fun networkId g => ?_⟩
  have hempty : empty.graph? networkId = none := rfl
  rw [hlookup, hempty]
  simp

theorem addNew_of_graph?_eq_some {s : SnapshotSet} {g h : TrustGraph}
    (present : s.graph? g.networkId = some h) : s.addNew g = .error (.duplicate g.networkId) := by
  rw [addNew, present]
  rfl

/-- The first graph whose network is among those before it ends the collection. -/
theorem ofGraphs_of_repeated {before after : List TrustGraph} {g : TrustGraph}
    (distinct : (before.map (·.networkId)).Nodup)
    (repeated : g.networkId ∈ before.map (·.networkId)) :
    ofGraphs (before ++ g :: after) = .error (.duplicate g.networkId) := by
  obtain ⟨s, hs, hlookup⟩ := exists_ofGraphs distinct
  obtain ⟨h, hmem, hid⟩ := List.mem_map.1 repeated
  have present := (hlookup g.networkId h).2 ⟨hmem, hid⟩
  rw [ofGraphs] at hs
  rw [ofGraphs, List.foldlM_append, hs]
  apply Outcome.bind_eq_error_iff.2
  exact Or.inr ⟨s, rfl, Outcome.bind_eq_error_iff.2 (Or.inl (addNew_of_graph?_eq_some present))⟩

/-- Among graphs that share a network there is a first one whose network came before. -/
theorem exists_first_repeated {gs : List TrustGraph} (h : ¬ (gs.map (·.networkId)).Nodup) :
    ∃ before g after, gs = before ++ g :: after ∧ (before.map (·.networkId)).Nodup ∧
      g.networkId ∈ before.map (·.networkId) := by
  induction gs using List.reverseRecOn with
  | nil => exact absurd List.nodup_nil h
  | append_singleton gs last ih =>
    by_cases distinct : (gs.map (·.networkId)).Nodup
    · refine ⟨gs, last, [], rfl, distinct, ?_⟩
      by_contra fresh
      apply h
      rw [List.map_append, List.map_singleton]
      refine List.nodup_append.2 ⟨distinct, List.nodup_singleton _, ?_⟩
      rintro a ha b hb rfl
      exact fresh (List.mem_singleton.1 hb ▸ ha)
    · obtain ⟨before, g, after, rfl, hbefore, repeated⟩ := ih distinct
      exact ⟨before, g, after ++ [last], by simp, hbefore, repeated⟩

/-- Graphs can be collected unless two of them are of one network. -/
theorem exists_ofGraphs_error_iff {gs : List TrustGraph} :
    (∃ e, ofGraphs gs = .error e) ↔ ¬ (gs.map (·.networkId)).Nodup := by
  constructor
  · rintro ⟨e, failed⟩ distinct
    obtain ⟨s, hs, -⟩ := exists_ofGraphs distinct
    rw [failed] at hs
    cases hs
  · intro shared
    obtain ⟨before, g, after, rfl, distinct, repeated⟩ := exists_first_repeated shared
    exact ⟨_, ofGraphs_of_repeated distinct repeated⟩

/-- Collecting fails exactly where a graph comes after one of the same network, and names the first
such network. -/
theorem ofGraphs_eq_error_iff {gs : List TrustGraph} {e : NetworkError} :
    ofGraphs gs = .error e ↔ ∃ before g after, gs = before ++ g :: after ∧
      (before.map (·.networkId)).Nodup ∧ g.networkId ∈ before.map (·.networkId) ∧
      e = .duplicate g.networkId := by
  constructor
  · intro failed
    have shared := exists_ofGraphs_error_iff.1 ⟨e, failed⟩
    obtain ⟨before, g, after, rfl, distinct, repeated⟩ := exists_first_repeated shared
    rw [ofGraphs_of_repeated distinct repeated] at failed
    cases failed
    exact ⟨before, g, after, rfl, distinct, repeated, rfl⟩
  · rintro ⟨before, g, after, rfl, distinct, repeated, rfl⟩
    exact ofGraphs_of_repeated distinct repeated

theorem nodup_of_ofGraphs {gs : List TrustGraph} {s : SnapshotSet} (h : ofGraphs gs = .ok s) :
    (gs.map (·.networkId)).Nodup := by
  by_contra shared
  obtain ⟨_, failed⟩ := exists_ofGraphs_error_iff.2 shared
  rw [h] at failed
  cases failed

/-- The names of the networks are listed by sorting those of the graphs. -/
theorem mergeSort_networkIds {gs : List TrustGraph} {s : SnapshotSet} (h : ofGraphs gs = .ok s) :
    (gs.map (·.networkId)).mergeSort = s.networkIds := by
  have distinct := nodup_of_ofGraphs h
  obtain ⟨_, hs, hlookup⟩ := exists_ofGraphs distinct
  rw [h] at hs
  cases hs
  refine Table.mergeSort_eq_keys distinct fun networkId => ?_
  have mem_keys_iff : networkId ∈ s.graphs.keys ↔ ∃ g, s.graph? networkId = some g :=
    Table.mem_keys_iff
  simp only [mem_keys_iff, hlookup, List.mem_map]

/-- Collecting does not depend on the order of the graphs. -/
theorem exists_ofGraphs_of_perm {gs gs' : List TrustGraph} (perm : gs.Perm gs') {s : SnapshotSet}
    (h : ofGraphs gs = .ok s) :
    ∃ s', ofGraphs gs' = .ok s' ∧ ∀ networkId, s'.graph? networkId = s.graph? networkId := by
  have distinct := nodup_of_ofGraphs h
  obtain ⟨_, hs, hlookup⟩ := exists_ofGraphs distinct
  obtain ⟨s', hs', hlookup'⟩ := exists_ofGraphs ((perm.map _).nodup_iff.1 distinct)
  rw [h] at hs
  cases hs
  refine ⟨s', hs', ?_⟩
  intro networkId
  apply Option.ext
  intro g
  rw [hlookup', hlookup, perm.mem_iff]

end Federation.SnapshotSet
