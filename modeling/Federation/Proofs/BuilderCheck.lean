import Federation.Graph.Builder

/-!
# What the builder accepts

The checks of the builder run over two lists and stop at the first fault. They pass exactly when
the network is named, its providers have distinct identifiers that are not empty, and every declared
edge runs between providers; the order in which all this was added is of no account.
-/

namespace Federation.GraphBuilder

/-- A network without faults. -/
structure Sound (b : GraphBuilder) : Prop where
  named : Text.isBlank b.networkId = false
  identified : ∀ node ∈ b.nodes, node.id.isEmpty = false
  distinct : (b.nodes.map (·.id)).Nodup
  connected : ∀ e ∈ b.edges, e.source ∈ b.nodes.map (·.id) ∧ e.target ∈ b.nodes.map (·.id)

theorem checkProviders_eq_ok_iff (seen : List ProviderId) (nodes : List ProviderNode) :
    checkProviders seen nodes = .ok () ↔
      (∀ node ∈ nodes, node.id.isEmpty = false ∧ node.id ∉ seen) ∧
        (nodes.map (·.id)).Nodup := by
  induction nodes generalizing seen with
  | nil => simp [checkProviders]
  | cons node rest ih =>
    by_cases hempty : node.id.isEmpty = true
    · simp [checkProviders, hempty]
    · by_cases hseen : node.id ∈ seen
      · simp [checkProviders, hempty, hseen]
      · have hstep : checkProviders seen (node :: rest) =
            checkProviders (node.id :: seen) rest := by
          simp [checkProviders, hempty, hseen]
        rw [hstep, ih, List.forall_mem_cons, List.map_cons, List.nodup_cons]
        constructor
        · rintro ⟨hrest, hnodup⟩
          refine ⟨⟨⟨by simpa using hempty, hseen⟩, fun n hn => ?_⟩, ?_, hnodup⟩
          · exact ⟨(hrest n hn).1, fun h => (hrest n hn).2 (List.mem_cons_of_mem _ h)⟩
          · intro hmem
            obtain ⟨n, hn, heq⟩ := List.mem_map.1 hmem
            exact (hrest n hn).2 (heq ▸ List.mem_cons_self)
        · rintro ⟨⟨_, hrest⟩, hfresh, hnodup⟩
          refine ⟨fun n hn => ⟨(hrest n hn).1, fun h => ?_⟩, hnodup⟩
          rcases List.mem_cons.1 h with heq | h
          · exact hfresh (heq ▸ List.mem_map_of_mem hn)
          · exact (hrest n hn).2 h

theorem checkEdges_eq_ok_iff (ids : List ProviderId) (edges : List TrustEdge) :
    checkEdges ids edges = .ok () ↔ ∀ e ∈ edges, e.source ∈ ids ∧ e.target ∈ ids := by
  induction edges with
  | nil => simp [checkEdges]
  | cons e rest ih =>
    by_cases hs : e.source ∈ ids
    · by_cases ht : e.target ∈ ids
      · simp [checkEdges, hs, ht, ih]
      · simp [checkEdges, hs, ht]
    · simp [checkEdges, hs]

/-- The checks pass exactly on the networks without faults. -/
theorem check_eq_ok_iff (b : GraphBuilder) : b.check = .ok () ↔ b.Sound := by
  have hcheck : b.check = .ok () ↔ Text.isBlank b.networkId = false ∧
      checkProviders [] b.nodes = .ok () ∧ checkEdges (b.nodes.map (·.id)) b.edges = .ok () := by
    unfold check
    cases Text.isBlank b.networkId <;> cases checkProviders [] b.nodes <;>
      simp [bind, Except.bind, throw, throwThe, MonadExceptOf.throw]
  rw [hcheck, checkProviders_eq_ok_iff, checkEdges_eq_ok_iff]
  constructor
  · rintro ⟨named, ⟨providers, distinct⟩, connected⟩
    exact ⟨named, fun n hn => (providers n hn).1, distinct, connected⟩
  · intro h
    exact ⟨h.named, ⟨fun n hn => ⟨h.identified n hn, by simp⟩, h.distinct⟩, h.connected⟩

/-- Building succeeds exactly on the networks without faults, and freezes them as they are. -/
theorem build_eq_ok_iff {b : GraphBuilder} {g : TrustGraph} :
    b.build = .ok g ↔ b.Sound ∧ g = b.freeze := by
  rw [← check_eq_ok_iff, build]
  cases b.check with
  | error fault => simp
  | ok u => simp [eq_comm]

theorem exists_build_iff {b : GraphBuilder} : (∃ g, b.build = .ok g) ↔ b.Sound := by
  constructor
  · rintro ⟨g, built⟩
    exact (build_eq_ok_iff.1 built).1
  · exact fun sound => ⟨_, build_eq_ok_iff.2 ⟨sound, rfl⟩⟩

end Federation.GraphBuilder
