import Federation.Proofs.AdjacencyLayout
import Mathlib.Algebra.Order.BigOperators.Group.List
import Mathlib.Algebra.Order.Group.Nat

/-!
# The adjacency as a copy of its graph

A search asks the adjacency and never the graph. All that it can ask has the same answer in both:
which providers there are, whom each of them trusts and in which order. Positions and offsets that
are read on the way exist, and none of the edges is left out.
-/

namespace Federation.Adjacency

/-- An adjacency has all of a graph, by position, and is read within its arrays. -/
structure Copies (adj : Adjacency) (g : TrustGraph) : Prop where
  ids_ascending : adj.ids.toList.Pairwise (· < ·)
  mem_ids_iff : ∀ id, id ∈ adj.ids.toList ↔ g.contains id = true
  /-- Every position has an identifier, whose position it is. -/
  id?_of_lt : ∀ i < adj.size, ∃ id, adj.id? i = some id ∧ adj.indexOf? id = some i
  id?_of_indexOf? : ∀ id i, adj.indexOf? id = some i → adj.id? i = some id
  indexOf?_eq_none_iff : ∀ id, adj.indexOf? id = none ↔ g.contains id = false
  /-- The successors of a position are those its provider trusts, in the same order. -/
  successors_eq : ∀ i id, adj.id? i = some id →
    (adj.successors i).map adj.id? = (g.outgoing id).map some
  successor_lt : ∀ i, ∀ j ∈ adj.successors i, j < adj.size
  successors_of_size_le : ∀ i, adj.size ≤ i → adj.successors i = []
  sum_length_successors :
    ((List.range adj.size).map fun i => (adj.successors i).length).sum = g.edgeCount
  /-- No edge is passed over for an end without a position. -/
  ends_indexed : ∀ e ∈ g.edges, ∃ i < adj.size, ∃ j < adj.size,
    adj.indexOf? e.source = some i ∧ adj.indexOf? e.target = some j
  /-- The successors of a position are a slice of the targets that lies within them. -/
  slice : ∀ i < adj.size, ∃ first last, adj.offsets[i]? = some first ∧
    adj.offsets[i + 1]? = some last ∧ first ≤ last ∧ last ≤ adj.targets.size ∧
      adj.successors i = (adj.targets.extract first last).toList

/-- The offsets of a row grow and end within the targets. -/
theorem LaidOut.slice {adj : Adjacency} {groups : List (List Nat)} (h : adj.LaidOut groups)
    {i : Nat} (hi : i < groups.length) : ∃ first last, adj.offsets[i]? = some first ∧
      adj.offsets[i + 1]? = some last ∧ first ≤ last ∧ last ≤ adj.targets.size := by
  have hgrows := List.monotone_sum_take (groups.map List.length)
  have hsize : adj.targets.size = ((groups.map List.length).take groups.length).sum := by
    rw [List.take_of_length_le (by simp), ← List.length_flatten, ← h.targets_eq,
      Array.length_toList]
  refine ⟨_, _, h.offsets_eq i (by omega), h.offsets_eq (i + 1) (by omega),
    hgrows (Nat.le_succ i), ?_⟩
  rw [hsize]
  exact hgrows hi

theorem successors_of_offsets {adj : Adjacency} {i first last : Nat} (hi : i < adj.size)
    (hfirst : adj.offsets[i]? = some first) (hlast : adj.offsets[i + 1]? = some last) :
    adj.successors i = (adj.targets.extract first last).toList := by
  rw [successors, if_neg (Nat.not_le.2 hi), hfirst, hlast]

theorem successors_of_size_le {adj : Adjacency} {i : Nat} (hi : adj.size ≤ i) :
    adj.successors i = [] :=
  if_pos hi

section OfGraph

variable {g : TrustGraph}

theorem exists_id? {i : Nat} (hi : i < (ofGraph g).size) : ∃ id, (ofGraph g).id? i = some id :=
  ⟨_, Array.getElem?_eq_getElem hi⟩

theorem exists_indexOf?_iff {id : ProviderId} :
    (∃ i, (ofGraph g).indexOf? id = some i) ↔ g.contains id = true :=
  (exists_congr fun _ => indexOf?_ofGraph).trans exists_id?_iff

theorem indexOf?_eq_none_iff {id : ProviderId} :
    (ofGraph g).indexOf? id = none ↔ g.contains id = false := by
  rw [← Bool.not_eq_true, ← exists_indexOf?_iff, Option.eq_none_iff_forall_ne_some, not_exists]

variable (wf : g.WellFormed)
include wf

theorem ends_indexed {e : TrustEdge} (he : e ∈ g.edges) :
    ∃ i < (ofGraph g).size, ∃ j < (ofGraph g).size,
      (ofGraph g).indexOf? e.source = some i ∧ (ofGraph g).indexOf? e.target = some j := by
  have ends := wf.connected _ _ (wf.hasEdge_iff.2 ⟨e, he, rfl, rfl⟩)
  obtain ⟨i, hi⟩ := exists_indexOf?_iff.2 ends.1
  obtain ⟨j, hj⟩ := exists_indexOf?_iff.2 ends.2
  exact ⟨i, lt_size_of_id? (indexOf?_ofGraph.1 hi), j, lt_size_of_id? (indexOf?_ofGraph.1 hj),
    hi, hj⟩

/-- There are as many successors as edges, as a row has the length of the list that it copies. -/
theorem sum_length_successors_eq :
    ((List.range (ofGraph g).size).map fun i => ((ofGraph g).successors i).length).sum =
      g.edgeCount := by
  have hrow : (List.range (ofGraph g).size).map (fun i => ((ofGraph g).successors i).length) =
      g.ids.map fun id => (g.outgoing id).length := by
    refine List.ext_getElem (by simp [size_ofGraph]) fun i hi hi' => ?_
    have hlt : i < g.ids.length := by simpa using hi'
    have hid : (ofGraph g).id? i = some g.ids[i] := by
      rw [id?_ofGraph]
      exact List.getElem?_eq_getElem hlt
    have hlength := congrArg List.length (map_id?_successors wf hid)
    rw [List.length_map, List.length_map] at hlength
    simpa using hlength
  rw [hrow, wf.sum_outgoing_length]

end OfGraph

/-- The adjacency of a built graph has all of it and nothing else. -/
theorem copies_of_build (b : GraphBuilder) (g : TrustGraph) (built : b.build = .ok g) :
    (ofGraph g).Copies g := by
  have wf := GraphBuilder.wellFormed_of_build built
  have hids : (ofGraph g).ids.toList = g.ids := by rw [ids_ofGraph]
  refine ⟨hids ▸ g.ids_ascending, fun id => ?_, fun i hi => ?_, fun id i h => ?_,
    fun id => indexOf?_eq_none_iff, fun i id hi => map_id?_successors wf hi,
    fun i j hj => (closed_ofGraph wf).successor_lt hj, fun i hi => successors_of_size_le hi,
    sum_length_successors_eq wf, fun e he => ends_indexed wf he, fun i hi => ?_⟩
  · rw [hids, TrustGraph.contains_iff]
  · obtain ⟨id, hid⟩ := exists_id? hi
    exact ⟨id, hid, indexOf?_ofGraph.2 hid⟩
  · exact indexOf?_ofGraph.1 h
  · have hrow : i < (groups g).length := by rwa [length_groups, ← size_ofGraph]
    obtain ⟨first, last, hfirst, hlast, hle, hwithin⟩ := (laidOut_ofGraph g).slice hrow
    exact ⟨first, last, hfirst, hlast, hle, hwithin, successors_of_offsets hi hfirst hlast⟩

/-- Providers that were added out of order, one of them without trust in either direction, with a
loop, an edge in each direction and a pair that is declared twice. -/
def scattered : GraphBuilder where
  networkId := "scattered"
  nodes := ["c", "é", "a", "b"].map fun id => ⟨⟨id⟩, "https://" ++ id, .peer, {}⟩
  edges := [("c", "b"), ("a", "c"), ("c", "a"), ("a", "a"), ("c", "b"), ("a", "b")].map fun ends =>
    ⟨⟨ends.1⟩, ⟨ends.2⟩, .explicit⟩

/-- The rows stand in the order of identifiers, each in the order of its declarations. -/
theorem copies_scattered :
    scattered.build = .ok scattered.freeze ∧
      (ofGraph scattered.freeze).Copies scattered.freeze ∧
      (ofGraph scattered.freeze).ids = #[⟨"a"⟩, ⟨"b"⟩, ⟨"c"⟩, ⟨"é"⟩] ∧
      (ofGraph scattered.freeze).offsets = #[0, 3, 3, 5, 5] ∧
      (ofGraph scattered.freeze).targets = #[2, 0, 1, 1, 0] := by
  have built : scattered.build = .ok scattered.freeze := rfl
  exact ⟨built, copies_of_build scattered _ built, by decide +kernel, by decide +kernel,
    by decide +kernel⟩

end Federation.Adjacency
