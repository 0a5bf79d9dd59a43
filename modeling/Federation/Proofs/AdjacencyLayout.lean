import Federation.Graph.Adjacency
import Federation.Proofs.GraphRepresentation
import Mathlib.Algebra.BigOperators.Group.List.Lemmas

/-!
# The adjacency of a graph

The adjacency groups the edges of a graph by the position of their source and lays the groups out
one behind another. Read back by position, it gives the identifiers of the graph and the targets of
each in the order in which the graph has them.
-/

namespace Federation.Adjacency

section Groups

variable (index : Table ProviderId Nat)

/-- The positions that the edges from position `i` lead to. -/
def row (edges : List TrustEdge) (i : Nat) : List Nat :=
  edges.filterMap fun e => if index.get? e.source = some i then index.get? e.target else none

theorem getElem?_group (groups : List (List Nat)) (e : TrustEdge) (i : Nat) :
    (group index groups e)[i]? = groups[i]?.map (· ++ row index [e] i) := by
  unfold group
  cases hs : index.get? e.source with
  | none => simp [row, hs]
  | some k =>
    cases ht : index.get? e.target with
    | none => simp [row, ht]
    | some j =>
      by_cases hk : k = i
      · subst hk
        simp [row, hs, ht]
      · simp [row, hs, hk]

theorem getElem?_foldl_group (groups : List (List Nat)) (edges : List TrustEdge) (i : Nat) :
    (edges.foldl (group index) groups)[i]? = groups[i]?.map (· ++ row index edges i) := by
  induction edges generalizing groups with
  | nil => simp [row]
  | cons e rest ih =>
    have hrow : row index (e :: rest) i = row index [e] i ++ row index rest i :=
      List.filterMap_append (l := [e])
    rw [List.foldl_cons, ih, getElem?_group, Option.map_map, hrow]
    congr 1
    funext l
    simp

theorem length_foldl_group (groups : List (List Nat)) (edges : List TrustEdge) :
    (edges.foldl (group index) groups).length = groups.length := by
  induction edges generalizing groups with
  | nil => rfl
  | cons e rest ih =>
    rw [List.foldl_cons, ih, group]
    split
    · rw [List.length_modify]
    · rfl

end Groups

/-- The groups stand one behind another in the targets, and the offsets tell where each begins. -/
structure LaidOut (adj : Adjacency) (groups : List (List Nat)) : Prop where
  targets_eq : adj.targets.toList = groups.flatten
  offsets_size : adj.offsets.size = groups.length + 1
  offsets_eq : ∀ i ≤ groups.length, adj.offsets[i]? = some ((groups.map List.length).take i).sum

theorem LaidOut.layOut {adj : Adjacency} {groups : List (List Nat)} (h : adj.LaidOut groups)
    (next : List Nat) : (adj.layOut next).LaidOut (groups ++ [next]) := by
  have targets_eq : (adj.layOut next).targets.toList = (groups ++ [next]).flatten := by
    simp [Adjacency.layOut, h.targets_eq]
  have size_eq : (adj.targets ++ next).size = ((groups ++ [next]).map List.length).sum := by
    rw [← List.length_flatten, ← targets_eq, Array.length_toList]
    rfl
  refine ⟨targets_eq, by simp [Adjacency.layOut, h.offsets_size], fun i hi => ?_⟩
  rw [Adjacency.layOut, Array.getElem?_push, h.offsets_size]
  by_cases hlast : i = groups.length + 1
  · subst hlast
    rw [if_pos rfl, size_eq, List.take_of_length_le (by simp)]
  · have hle : i ≤ groups.length := by
      rw [List.length_append, List.length_singleton] at hi
      omega
    rw [if_neg hlast, h.offsets_eq i hle, List.map_append, List.take_append_of_le_length (by simpa)]

theorem LaidOut.foldl_layOut {adj : Adjacency} {before : List (List Nat)}
    (h : adj.LaidOut before) (groups : List (List Nat)) :
    (groups.foldl Adjacency.layOut adj).LaidOut (before ++ groups) := by
  induction groups generalizing adj before with
  | nil => simpa using h
  | cons next rest ih => simpa using ih (h.layOut next)

theorem ids_foldl_layOut (adj : Adjacency) (groups : List (List Nat)) :
    (groups.foldl layOut adj).ids = adj.ids := by
  induction groups generalizing adj with
  | nil => rfl
  | cons next rest ih => exact ih _

theorem index_foldl_layOut (adj : Adjacency) (groups : List (List Nat)) :
    (groups.foldl layOut adj).index = adj.index := by
  induction groups generalizing adj with
  | nil => rfl
  | cons next rest ih => exact ih _

/-- What is read between two offsets is the group that was laid out there. -/
theorem LaidOut.successors_eq {adj : Adjacency} {groups : List (List Nat)}
    (h : adj.LaidOut groups) (hsize : adj.size = groups.length) (i : Nat) :
    adj.successors i = (groups[i]?).getD [] := by
  unfold successors
  by_cases hi : i < groups.length
  · rw [if_neg (by omega), h.offsets_eq i (by omega), h.offsets_eq (i + 1) (by omega)]
    have hread : ∀ first last, (adj.targets.extract first last).toList =
        (groups.flatten.take last).drop first := fun first last => by
      rw [Array.toList_extract, h.targets_eq, List.extract_eq_take_drop, List.drop_take]
    rw [List.getElem?_eq_getElem hi, Option.getD_some]
    exact (hread _ _).trans (List.drop_take_succ_flatten_eq_getElem groups i hi)
  · rw [if_pos (by omega), List.getElem?_eq_none (by omega)]
    rfl

/-- Successors are positions of the adjacency, and none is listed twice for one position. -/
structure Closed (adj : Adjacency) : Prop where
  successor_lt : ∀ {i j}, j ∈ adj.successors i → j < adj.size
  successors_nodup : ∀ i, (adj.successors i).Nodup

section OfGraph

theorem ids_ofGraph (g : TrustGraph) : (ofGraph g).ids = g.ids.toArray :=
  ids_foldl_layOut _ _

theorem size_ofGraph (g : TrustGraph) : (ofGraph g).size = g.ids.length := by
  rw [size, ids_ofGraph, List.size_toArray]

theorem id?_ofGraph (g : TrustGraph) (i : Nat) : (ofGraph g).id? i = g.ids[i]? := by
  rw [id?, ids_ofGraph, List.getElem?_toArray]

theorem lt_size_of_id? {adj : Adjacency} {i : Nat} {id : ProviderId} (hi : adj.id? i = some id) :
    i < adj.size :=
  (Array.getElem?_eq_some_iff.1 hi).1

/-- The providers of a graph are those that have a position. -/
theorem exists_id?_iff {g : TrustGraph} {id : ProviderId} :
    (∃ i, (ofGraph g).id? i = some id) ↔ g.contains id = true := by
  rw [TrustGraph.contains_iff, List.mem_iff_getElem?]
  exact exists_congr fun i => by rw [id?_ofGraph]

/-- Positions and identifiers name each other. -/
theorem indexOf?_ofGraph {g : TrustGraph} {id : ProviderId} {i : Nat} :
    (ofGraph g).indexOf? id = some i ↔ (ofGraph g).id? i = some id := by
  have distinct : (g.ids.zipIdx.map (·.1)).Nodup := by
    rw [List.zipIdx_map_fst]
    exact g.nodes.keys_nodup
  rw [id?_ofGraph, indexOf?, ofGraph, index_foldl_layOut, Table.get?_ofList distinct,
    List.mk_mem_zipIdx_iff_getElem?]

theorem id?_inj {g : TrustGraph} {id : ProviderId} {i j : Nat}
    (hi : (ofGraph g).id? i = some id) (hj : (ofGraph g).id? j = some id) : i = j :=
  Option.some.inj ((indexOf?_ofGraph.2 hi).symm.trans (indexOf?_ofGraph.2 hj))

/-- The positions that edges lead to, grouped by the position that they come from. -/
def groups (g : TrustGraph) : List (List Nat) :=
  g.edges.foldl (group (ofGraph g).index) (List.replicate g.ids.length [])

theorem length_groups (g : TrustGraph) : (groups g).length = g.ids.length := by
  rw [groups, length_foldl_group, List.length_replicate]

theorem laidOut_ofGraph (g : TrustGraph) : (ofGraph g).LaidOut (groups g) := by
  have start : LaidOut ⟨g.ids.toArray, (ofGraph g).index, #[0], #[]⟩ [] :=
    ⟨rfl, rfl, fun k hk => by simp [Nat.le_zero.1 hk]⟩
  have hindex : (ofGraph g).index = Table.ofList g.ids.zipIdx := index_foldl_layOut _ _
  rw [groups, hindex]
  exact (hindex ▸ start).foldl_layOut _

theorem successors_eq_groups (g : TrustGraph) (i : Nat) :
    (ofGraph g).successors i = ((groups g)[i]?).getD [] :=
  (laidOut_ofGraph g).successors_eq (by rw [size_ofGraph, length_groups]) i

theorem successors_ofGraph (g : TrustGraph) {i : Nat} (hi : i < g.ids.length) :
    (ofGraph g).successors i = row (ofGraph g).index g.edges i := by
  rw [successors_eq_groups, groups, getElem?_foldl_group, List.getElem?_replicate, if_pos hi]
  rfl

/-- All successors together are the targets that were laid out. -/
theorem sum_length_successors (g : TrustGraph) :
    ((List.range (ofGraph g).size).map fun i => ((ofGraph g).successors i).length).sum =
      (ofGraph g).edgeCount := by
  have hrows : (List.range (groups g).length).map (fun i => ((groups g)[i]?).getD []) =
      groups g := by
    refine List.ext_getElem (by simp) fun i h _ => ?_
    have hi : i < (groups g).length := by simpa using h
    simp [hi]
  have htargets : (groups g).flatten.length = (ofGraph g).edgeCount := by
    rw [← (laidOut_ofGraph g).targets_eq, Array.length_toList]
    rfl
  rw [size_ofGraph, ← length_groups, ← htargets, List.length_flatten]
  conv_rhs => rw [← hrows]
  rw [List.map_map]
  simp only [successors_eq_groups, Function.comp_def]

variable {g : TrustGraph} (wf : g.WellFormed)
include wf

/-- The successors of a position are the positions of those its provider trusts, in order. -/
theorem map_id?_successors {i : Nat} {id : ProviderId} (hi : (ofGraph g).id? i = some id) :
    ((ofGraph g).successors i).map (ofGraph g).id? = (g.outgoing id).map some := by
  have hlt : i < g.ids.length := size_ofGraph g ▸ lt_size_of_id? hi
  rw [successors_ofGraph g hlt, row, List.map_filterMap, TrustGraph.outgoing,
    wf.consistent.outgoing_eq, List.map_map, ← List.filterMap_eq_map, List.filterMap_filter]
  refine List.filterMap_congr fun e he => ?_
  have ends := wf.connected _ _ (wf.hasEdge_iff.2 ⟨e, he, rfl, rfl⟩)
  have hsource : (ofGraph g).index.get? e.source = some i ↔ e.source = id := by
    constructor
    · intro h
      exact Option.some.inj ((indexOf?_ofGraph.1 h).symm.trans hi)
    · rintro rfl
      exact indexOf?_ofGraph.2 hi
  obtain ⟨j, hj⟩ := exists_id?_iff.2 ends.2
  have htarget : (ofGraph g).index.get? e.target = some j := indexOf?_ofGraph.2 hj
  simp only [hsource]
  by_cases hs : e.source = id
  · simp [hs, htarget, hj]
  · simp [hs]

/-- A position trusts another exactly when the provider at the one trusts that at the other. -/
theorem mem_successors_iff {i j : Nat} {id id' : ProviderId} (hi : (ofGraph g).id? i = some id)
    (hj : (ofGraph g).id? j = some id') :
    j ∈ (ofGraph g).successors i ↔ g.hasEdge id id' = true := by
  rw [← wf.mem_outgoing_iff]
  have hmap := map_id?_successors wf hi
  constructor
  · intro h
    have hmem : (ofGraph g).id? j ∈ (g.outgoing id).map some := hmap ▸ List.mem_map_of_mem h
    simpa [hj] using hmem
  · intro h
    have hmem : some id' ∈ ((ofGraph g).successors i).map (ofGraph g).id? :=
      hmap ▸ List.mem_map_of_mem h
    obtain ⟨k, hk, hid⟩ := List.mem_map.1 hmem
    exact id?_inj hid hj ▸ hk

theorem closed_ofGraph : (ofGraph g).Closed := by
  have hrow : ∀ i, (ofGraph g).successors i = [] ∨
      ∃ id, ((ofGraph g).successors i).map (ofGraph g).id? = (g.outgoing id).map some := by
    intro i
    cases hi : (ofGraph g).id? i with
    | none =>
      left
      rw [id?_ofGraph, List.getElem?_eq_none_iff] at hi
      rw [successors, if_pos (size_ofGraph g ▸ hi)]
    | some id => exact Or.inr ⟨id, map_id?_successors wf hi⟩
  refine ⟨fun {i j} hj => ?_, fun i => ?_⟩
  · rcases hrow i with hempty | ⟨id, hmap⟩
    · rw [hempty] at hj
      cases hj
    · have hmem : (ofGraph g).id? j ∈ (g.outgoing id).map some := hmap ▸ List.mem_map_of_mem hj
      obtain ⟨id', _, hid⟩ := List.mem_map.1 hmem
      exact lt_size_of_id? hid.symm
  · rcases hrow i with hempty | ⟨id, hmap⟩
    · rw [hempty]
      exact .nil
    · have hnodup : (((ofGraph g).successors i).map (ofGraph g).id?).Nodup := by
        rw [hmap]
        exact (wf.consistent.outgoing_nodup id).map (Option.some_injective _)
      exact hnodup.of_map _

end OfGraph

end Federation.Adjacency
