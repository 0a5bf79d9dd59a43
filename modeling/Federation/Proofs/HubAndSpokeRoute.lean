import Federation.Policy.HubAndSpoke
import Federation.Proofs.PolicyQuery
import Federation.Proofs.TrustWalk

/-!
# Hub-and-spoke routes

Routing looks for an edge first, then at the roles of the two ends, then for a hub between them.
Each of its answers says which of these it found.
-/

namespace Federation.HubAndSpoke

/-- A hub stands between two providers when the one trusts it and it trusts the other. -/
def Bridges (g : TrustGraph) (source target : ProviderId) (hub : ProviderNode) : Prop :=
  hub ∈ g.hubs ∧ g.hasEdge source hub.id = true ∧ g.hasEdge hub.id target = true

theorem bridges_of_bridgingHub? {g : TrustGraph} {source target : ProviderId} {hub : ProviderNode}
    (h : bridgingHub? g source target = some hub) : Bridges g source target hub := by
  have htest := List.find?_some h
  rw [Bool.and_eq_true] at htest
  exact ⟨List.mem_of_find?_eq_some h, htest⟩

theorem not_bridges_of_bridgingHub? {g : TrustGraph} {source target : ProviderId}
    (h : bridgingHub? g source target = none) (hub : ProviderNode) :
    ¬ Bridges g source target hub := by
  rintro ⟨hmem, htest⟩
  exact List.find?_eq_none.1 h hub hmem (Bool.and_eq_true .. ▸ htest)

/-- What routing answers: an edge, the hub it finds between two providers that are no hubs, or
nothing. -/
theorem route_cases (g : TrustGraph) (source target : ProviderNode) :
    (g.hasEdge source.id target.id = true ∧
      route g source target = .along source.id target.id [source.id, target.id]) ∨
    (∃ hub, g.hasEdge source.id target.id = false ∧ source.role.isHub = false ∧
      target.role.isHub = false ∧ bridgingHub? g source.id target.id = some hub ∧
      route g source target = .along source.id target.id [source.id, hub.id, target.id]) ∨
    (g.hasEdge source.id target.id = false ∧
      (source.role.isHub = true ∨ target.role.isHub = true ∨
        ∀ hub, ¬ Bridges g source.id target.id hub) ∧
      route g source target = .unreachable source.id target.id) := by
  cases hedge : g.hasEdge source.id target.id with
  | true => exact Or.inl ⟨rfl, by simp [route, hedge]⟩
  | false =>
    right
    cases hsource : source.role.isHub with
    | true => exact Or.inr ⟨rfl, Or.inl rfl, by simp [route, hedge, hsource]⟩
    | false =>
      cases htarget : target.role.isHub with
      | true => exact Or.inr ⟨rfl, Or.inr (Or.inl rfl), by simp [route, hedge, htarget]⟩
      | false =>
        cases hbridge : bridgingHub? g source.id target.id with
        | none =>
          exact Or.inr ⟨rfl, Or.inr (Or.inr (not_bridges_of_bridgingHub? hbridge)),
            by simp [route, hedge, hsource, htarget, hbridge]⟩
        | some hub =>
          exact Or.inl ⟨hub, rfl, rfl, rfl, rfl,
            by simp [route, hedge, hsource, htarget, hbridge]⟩

/-- Two providers are connected by an edge, or by a hub if neither is one. -/
theorem reachable_route_iff (g : TrustGraph) (source target : ProviderNode) :
    (route g source target).reachable = true ↔ g.hasEdge source.id target.id = true ∨
      source.role.isHub = false ∧ target.role.isHub = false ∧
        ∃ hub, Bridges g source.id target.id hub := by
  rcases route_cases g source target with ⟨hedge, hroute⟩ | ⟨hub, _, hs, ht, hbridge, hroute⟩ |
    ⟨hedge, closed, hroute⟩
  · rw [hroute]
    exact ⟨fun _ => Or.inl hedge, fun _ => rfl⟩
  · rw [hroute]
    exact ⟨fun _ => Or.inr ⟨hs, ht, hub, bridges_of_bridgingHub? hbridge⟩, fun _ => rfl⟩
  · rw [hroute]
    constructor
    · intro h
      cases h
    · rintro (h | ⟨hs, ht, hub, bridges⟩)
      · rw [hedge] at h
        cases h
      · rcases closed with h | h | h
        · rw [hs] at h
          cases h
        · rw [ht] at h
          cases h
        · exact False.elim (h hub bridges)

/-- Two distinct texts are connected by an edge, or by a hub if neither is one. -/
theorem reachable_trustPath_iff {g : TrustGraph} (wf : g.WellFormed) {source target : ProviderId}
    (hne : source ≠ target) :
    (policy.trustPath g source target).reachable = true ↔ g.hasEdge source target = true ∨
      ¬ g.HasHub source ∧ ¬ g.HasHub target ∧
        ∃ hub, g.HasHub hub ∧ g.hasEdge source hub = true ∧ g.hasEdge hub target = true := by
  rw [← wf.exists_hub_iff (P := fun hub =>
    g.hasEdge source hub = true ∧ g.hasEdge hub target = true)]
  rcases Policy.trustPath_cases wf hne with
    ⟨s, t, rfl, rfl, hs, ht, hroute⟩ | ⟨missing, hunreachable⟩
  · have no_hub : ∀ {node : ProviderNode}, g.node? node.id = some node →
        (¬ g.HasHub node.id ↔ node.role.isHub = false) := by
      intro node hnode
      rw [TrustGraph.hasHub_iff_of_node? hnode, Bool.not_eq_true]
    rw [hroute policy, no_hub hs, no_hub ht]
    exact reachable_route_iff g s t
  · rw [hunreachable policy]
    constructor
    · exact fun h => False.elim (Bool.false_ne_true h)
    · -- an edge, or edges to and from a hub, would make both of them providers
      rintro (edge | ⟨_, _, hub, _, first, last⟩)
      · exact False.elim (missing (wf.connected _ _ edge))
      · exact False.elim (missing ⟨(wf.connected _ _ first).1, (wf.connected _ _ last).2⟩)

/-- A hub between two providers that are no hubs is neither of them. -/
theorem Bridges.ne {g : TrustGraph} (wf : g.WellFormed) {source target : ProviderId}
    {hub node : ProviderNode} (h : Bridges g source target hub)
    (hnode : g.node? node.id = some node) (hrole : node.role.isHub = false) : node.id ≠ hub.id := by
  intro heq
  obtain ⟨hid, hhub⟩ := wf.mem_hubs_iff_node?.1 h.1
  rw [← heq, hnode] at hid
  obtain rfl := Option.some.inj hid
  rw [hrole] at hhub
  cases hhub

/-- Routing never answers with more than a route along edges of the graph. -/
theorem route_answers {g : TrustGraph} (wf : g.WellFormed) {source target : ProviderNode}
    (hsource : g.node? source.id = some source) (htarget : g.node? target.id = some target)
    (hne : source.id ≠ target.id) :
    route g source target = .unreachable source.id target.id ∨
      ∃ path, route g source target = .along source.id target.id path ∧
        Route (fun a b => g.hasEdge a b = true) source.id target.id path := by
  have start : Route (fun a b => g.hasEdge a b = true) source.id source.id [source.id] :=
    .single source.id
  rcases route_cases g source target with ⟨hedge, hroute⟩ | ⟨hub, _, hs, ht, hbridge, hroute⟩ |
    ⟨_, _, hroute⟩
  · exact Or.inr ⟨_, hroute, start.snoc hedge (by simpa using hne.symm)⟩
  · have bridges := bridges_of_bridgingHub? hbridge
    have source_ne := bridges.ne wf hsource hs
    have target_ne := bridges.ne wf htarget ht
    have middle : Route (fun a b => g.hasEdge a b = true) source.id hub.id [source.id, hub.id] :=
      start.snoc bridges.2.1 (by simpa using source_ne.symm)
    refine Or.inr ⟨_, hroute, middle.snoc bridges.2.2 ?_⟩
    simp [hne.symm, target_ne]
  · exact Or.inl hroute

end Federation.HubAndSpoke
