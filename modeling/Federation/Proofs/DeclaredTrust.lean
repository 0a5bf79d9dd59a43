import Federation.Graph.Index

/-!
# Views of declared trust

One loop over the declarations fills the list of edges, the lists of targets and the sets of
targets, and drops a declaration whose pair was declared before. The views agree after every
declaration, whatever duplicates, loops and reverse edges come before it.
-/

namespace Federation

/-- The ordered pair of providers that an edge connects. -/
def TrustEdge.ends (e : TrustEdge) : ProviderId × ProviderId :=
  (e.source, e.target)

namespace TrustIndex

/-- The declarations without those whose ordered pair an earlier one declares. -/
def firstDeclared (declared : List TrustEdge) : List TrustEdge :=
  declared.eraseDupsBy fun a b => a.ends == b.ends

/-- The views of one index agree: the sets and the lists of targets are those of the edges, and no
pair has two edges. -/
structure Consistent (ix : TrustIndex) : Prop where
  hasEdge_iff : ∀ source target,
    ix.hasEdge source target = true ↔ (source, target) ∈ ix.edges.map TrustEdge.ends
  outgoing_eq : ∀ source,
    ix.outgoing source = (ix.edges.filter (·.source = source)).map (·.target)
  ends_nodup : (ix.edges.map TrustEdge.ends).Nodup

theorem hasEdge_empty (source target : ProviderId) : empty.hasEdge source target = false :=
  rfl

theorem declare_of_hasEdge {ix : TrustIndex} {e : TrustEdge}
    (h : ix.hasEdge e.source e.target = true) : ix.declare e = ix :=
  if_pos h

theorem edges_declare {ix : TrustIndex} {e : TrustEdge}
    (h : ¬ ix.hasEdge e.source e.target = true) : (ix.declare e).edges = ix.edges ++ [e] := by
  rw [declare, if_neg h]

theorem outgoing_declare {ix : TrustIndex} {e : TrustEdge}
    (h : ¬ ix.hasEdge e.source e.target = true) (source : ProviderId) :
    (ix.declare e).outgoing source =
      ix.outgoing source ++ if e.source = source then [e.target] else [] := by
  rw [declare, if_neg h]
  by_cases hs : e.source = source
  · subst hs
    simp [outgoing, Table.get?_insert_self]
  · simp [outgoing, Table.get?_insert, hs, Ne.symm hs]

/-- A declaration adds its own pair and no other. -/
theorem hasEdge_declare (ix : TrustIndex) (e : TrustEdge) (source target : ProviderId) :
    (ix.declare e).hasEdge source target = true ↔
      ix.hasEdge source target = true ∨ (source, target) = e.ends := by
  by_cases h : ix.hasEdge e.source e.target = true
  · rw [declare_of_hasEdge h]
    constructor
    · exact Or.inl
    · rintro (old | new)
      · exact old
      · obtain ⟨rfl, rfl⟩ := Prod.mk.inj new
        exact h
  · rw [declare, if_neg h]
    by_cases hs : source = e.source
    · subst hs
      simp [hasEdge, trusted, Table.get?_insert_self, Table.contains_insert, TrustEdge.ends,
        or_comm]
    · simp [hasEdge, trusted, Table.get?_insert, TrustEdge.ends, hs]

theorem consistent_empty : empty.Consistent where
  hasEdge_iff source target := by
    rw [hasEdge_empty]
    simp [empty]
  outgoing_eq source := rfl
  ends_nodup := .nil

/-- One step of the loop keeps the views in agreement. -/
theorem Consistent.declare {ix : TrustIndex} (h : ix.Consistent) (e : TrustEdge) :
    (ix.declare e).Consistent := by
  by_cases old : ix.hasEdge e.source e.target = true
  · rw [declare_of_hasEdge old]
    exact h
  · have fresh : e.ends ∉ ix.edges.map TrustEdge.ends := fun hmem =>
      old ((h.hasEdge_iff _ _).2 hmem)
    refine ⟨fun source target => ?_, fun source => ?_, ?_⟩
    · rw [hasEdge_declare, edges_declare old, h.hasEdge_iff]
      simp
    · rw [outgoing_declare old, edges_declare old, h.outgoing_eq, List.filter_append]
      by_cases hs : e.source = source <;> simp [hs]
    · rw [edges_declare old, List.map_append, List.nodup_append]
      refine ⟨h.ends_nodup, by simp, ?_⟩
      rintro a ha b hb rfl
      obtain rfl : a = e.ends := by simpa using hb
      exact fresh ha

theorem Consistent.foldl_declare {ix : TrustIndex} (h : ix.Consistent)
    (declared : List TrustEdge) : (declared.foldl TrustIndex.declare ix).Consistent := by
  induction declared generalizing ix with
  | nil => exact h
  | cons e rest ih => exact ih (h.declare e)

/-- The index of any list of declarations has views that agree. -/
theorem consistent_ofList (declared : List TrustEdge) : (ofList declared).Consistent :=
  consistent_empty.foldl_declare declared

/-- The loop drops exactly the declarations whose pair is among the edges kept so far. -/
theorem edges_foldl_declare {ix : TrustIndex} (h : ix.Consistent) (declared : List TrustEdge) :
    (declared.foldl TrustIndex.declare ix).edges =
      List.eraseDupsBy.loop (fun a b => a.ends == b.ends) declared ix.edges.reverse := by
  induction declared generalizing ix with
  | nil => simp [List.eraseDupsBy.loop]
  | cons e rest ih =>
    have seen : ix.edges.reverse.any (fun b => e.ends == b.ends) =
        ix.hasEdge e.source e.target := by
      rw [Bool.eq_iff_iff, h.hasEdge_iff, List.any_reverse, List.any_eq_true, List.mem_map]
      exact exists_congr fun b => and_congr_right fun _ => beq_iff_eq.trans eq_comm
    rw [List.foldl_cons, ih (h.declare e), List.eraseDupsBy.loop, seen]
    cases old : ix.hasEdge e.source e.target with
    | true => rw [declare_of_hasEdge old]
    | false => rw [edges_declare (by simp [old]), List.reverse_append]; rfl

/-- The edges are the declarations in their order, the first of each ordered pair. -/
theorem edges_ofList (declared : List TrustEdge) :
    (ofList declared).edges = firstDeclared declared :=
  edges_foldl_declare consistent_empty declared

theorem hasEdge_foldl_declare (ix : TrustIndex) (declared : List TrustEdge)
    (source target : ProviderId) :
    (declared.foldl TrustIndex.declare ix).hasEdge source target = true ↔
      ix.hasEdge source target = true ∨ (source, target) ∈ declared.map TrustEdge.ends := by
  induction declared generalizing ix with
  | nil => simp
  | cons e rest ih =>
    rw [List.foldl_cons, ih, hasEdge_declare]
    simp only [List.map_cons, List.mem_cons, or_assoc]

/-- A pair has an edge exactly when it was declared. -/
theorem hasEdge_ofList (declared : List TrustEdge) (source target : ProviderId) :
    (ofList declared).hasEdge source target = true ↔
      (source, target) ∈ declared.map TrustEdge.ends := by
  rw [ofList, hasEdge_foldl_declare, hasEdge_empty]
  simp

namespace Consistent

variable {ix : TrustIndex} (h : ix.Consistent)
include h

theorem mem_outgoing_iff {source target : ProviderId} :
    target ∈ ix.outgoing source ↔ ix.hasEdge source target = true := by
  rw [h.outgoing_eq, h.hasEdge_iff]
  simp [TrustEdge.ends, and_assoc]

/-- No provider is listed twice among those that another trusts. -/
theorem outgoing_nodup (source : ProviderId) : (ix.outgoing source).Nodup := by
  have ends_source : ((ix.edges.filter (·.source = source)).map TrustEdge.ends).Nodup :=
    (h.ends_nodup).sublist (List.filter_sublist.map _)
  have ends_eq : (ix.edges.filter (·.source = source)).map TrustEdge.ends =
      (ix.outgoing source).map (source, ·) := by
    rw [h.outgoing_eq, List.map_map]
    refine List.map_congr_left fun e he => ?_
    have hs : e.source = source := by simpa using (List.mem_filter.1 he).2
    simp [TrustEdge.ends, hs]
  rw [ends_eq] at ends_source
  refine List.Pairwise.of_map _ (fun a b hne heq => ?_) ends_source
  exact hne (congrArg _ heq)

end Consistent

end TrustIndex

end Federation
