import Federation.Proofs.BuilderRuns
import Federation.Proofs.HubAndSpokeRoute
import Federation.Proofs.IdentifierOrder

/-!
# The hub between two spokes

Without direct trust a hub-and-spoke route leads over one hub, and only between two providers that
are no hubs. The hubs of a graph are searched in the order of their identifiers, so that the hub of
the route is the least that there is.
-/

namespace Federation

/-- The hubs of a graph, each once, in the order of their identifiers. -/
theorem TrustGraph.WellFormed.hubs_ascending {g : TrustGraph} (wf : g.WellFormed) :
    g.hubs.Pairwise fun a b => a.id < b.id := by
  have hvalues : g.nodes.values.Pairwise fun a b => a.id < b.id := by
    have hids := g.ids_ascending
    rw [← wf.map_id_values] at hids
    exact List.pairwise_map.1 hids
  exact hvalues.filter _

namespace HubAndSpoke

theorem bridgingHub?_le {g : TrustGraph} (wf : g.WellFormed) {source target : ProviderId}
    {hub other : ProviderNode} (h : bridgingHub? g source target = some hub)
    (bridges : Bridges g source target other) : hub.id ≤ other.id := by
  obtain ⟨_, before, after, hsplit, hbefore⟩ := List.find?_eq_some_iff_append.1 h
  obtain ⟨hmem, hfirst, hlast⟩ := bridges
  have hascending := wf.hubs_ascending
  rw [hsplit] at hmem hascending
  rcases List.mem_append.1 hmem with hmem | hmem
  · -- the search has passed over all hubs before the one it found
    have hpassed := hbefore other hmem
    rw [hfirst, hlast] at hpassed
    cases hpassed
  · rcases List.mem_cons.1 hmem with rfl | hmem
    · exact Std.le_refl _
    · have htail := (List.pairwise_append.1 hascending).2.1
      exact Std.le_of_lt ((List.pairwise_cons.1 htail).1 other hmem)

/-- A hub of a run that the source trusts and that trusts the target. -/
def Relays (calls : List BuilderCall) (source target hub : ProviderId) : Prop :=
  BuilderCall.AddsHub calls hub ∧ BuilderCall.Declares calls source hub ∧
    BuilderCall.Declares calls hub target

/-- What the rules of hub-and-spoke networks answer for two distinct providers of a run. -/
structure Law (calls : List BuilderCall) (source target : ProviderId) (answer : PathResult) :
    Prop where
  direct : BuilderCall.Declares calls source target →
    answer = .along source target [source, target]
  /-- Nothing leads to or from a hub but direct trust. -/
  hub_end : ¬ BuilderCall.Declares calls source target →
    BuilderCall.AddsHub calls source ∨ BuilderCall.AddsHub calls target →
    answer = .unreachable source target
  /-- Of several hubs the least in the order of octets is taken. -/
  relayed : ¬ BuilderCall.Declares calls source target → ¬ BuilderCall.AddsHub calls source →
    ¬ BuilderCall.AddsHub calls target → (∃ hub, Relays calls source target hub) →
    ∃ hub, Relays calls source target hub ∧
      (∀ other, Relays calls source target other → hub.octets ≤ other.octets) ∧
      hub ≠ source ∧ hub ≠ target ∧ answer = .along source target [source, hub, target]
  unrelayed : ¬ BuilderCall.Declares calls source target →
    (∀ hub, ¬ Relays calls source target hub) → answer = .unreachable source target
  hopCount_le : answer.hopCount ≤ 2
  /-- The ends of a route over a hub are no hubs. -/
  not_chained : ∀ hub, answer.path = [source, hub, target] →
    ¬ BuilderCall.AddsHub calls source ∧ ¬ BuilderCall.AddsHub calls target

namespace Law

variable {calls : List BuilderCall} {source target : ProviderId}

theorem along_direct (declared : BuilderCall.Declares calls source target) :
    Law calls source target (.along source target [source, target]) where
  direct _ := rfl
  hub_end no := absurd declared no
  relayed no := absurd declared no
  unrelayed no := absurd declared no
  hopCount_le := by
    change (1 : Int) ≤ 2
    decide
  not_chained hub h := by
    have hlength := congrArg List.length h
    cases hlength

theorem along_relayed (no : ¬ BuilderCall.Declares calls source target)
    (hsource : ¬ BuilderCall.AddsHub calls source) (htarget : ¬ BuilderCall.AddsHub calls target)
    {hub : ProviderId} (relays : Relays calls source target hub)
    (least : ∀ other, Relays calls source target other → hub ≤ other) :
    Law calls source target (.along source target [source, hub, target]) where
  direct declared := absurd declared no
  hub_end _ ends := by
    rcases ends with h | h
    · exact absurd h hsource
    · exact absurd h htarget
  relayed _ _ _ _ := by
    refine ⟨hub, relays, ?_, ?_, ?_, rfl⟩
    · intro other hother
      exact ProviderId.octets_le_iff.2 (least other hother)
    · rintro rfl
      exact hsource relays.1
    · rintro rfl
      exact htarget relays.1
  unrelayed _ none_relays := absurd relays (none_relays hub)
  hopCount_le := by
    change (2 : Int) ≤ 2
    decide
  not_chained _ _ := ⟨hsource, htarget⟩

theorem unreachable (no : ¬ BuilderCall.Declares calls source target)
    (h : BuilderCall.AddsHub calls source ∨ BuilderCall.AddsHub calls target ∨
      ∀ hub, ¬ Relays calls source target hub) :
    Law calls source target (.unreachable source target) where
  direct declared := absurd declared no
  hub_end _ _ := rfl
  relayed _ hsource htarget hrelays := by
    obtain ⟨hub, relays⟩ := hrelays
    rcases h with h | h | h
    · exact absurd h hsource
    · exact absurd h htarget
    · exact absurd relays (h hub)
  unrelayed _ _ := rfl
  hopCount_le := by
    change (-1 : Int) ≤ 2
    decide
  not_chained _ h := by cases h

end Law

section Route

variable {networkId : String} {calls : List BuilderCall} {g : TrustGraph}
  (built : (GraphBuilder.run networkId calls).build = .ok g)
include built

theorem addsHub_iff_of_node? {node : ProviderNode} (hnode : g.node? node.id = some node) :
    BuilderCall.AddsHub calls node.id ↔ node.role.isHub = true := by
  rw [← GraphBuilder.hasHub_run_iff built, TrustGraph.hasHub_iff_of_node? hnode]

theorem relays_of_bridges {source target : ProviderId} {hub : ProviderNode}
    (bridges : Bridges g source target hub) : Relays calls source target hub.id := by
  obtain ⟨hmem, hfirst, hlast⟩ := bridges
  obtain ⟨hnode, hrole⟩ := (GraphBuilder.wellFormed_of_build built).mem_hubs_iff_node?.1 hmem
  exact ⟨(GraphBuilder.hasHub_run_iff built).1 ⟨hub, hnode, hrole⟩,
    (GraphBuilder.hasEdge_run_iff built).1 hfirst, (GraphBuilder.hasEdge_run_iff built).1 hlast⟩

theorem exists_bridges_of_relays {source target hub : ProviderId}
    (relays : Relays calls source target hub) :
    ∃ node, node.id = hub ∧ Bridges g source target node := by
  obtain ⟨hhub, hfirst, hlast⟩ := relays
  obtain ⟨node, hnode, hrole⟩ := (GraphBuilder.hasHub_run_iff built).2 hhub
  obtain rfl := (GraphBuilder.wellFormed_of_build built).keyed hub node hnode
  exact ⟨node, rfl, TrustGraph.mem_hubs_iff.2 ⟨⟨node.id, hnode⟩, hrole⟩,
    (GraphBuilder.hasEdge_run_iff built).2 hfirst, (GraphBuilder.hasEdge_run_iff built).2 hlast⟩

/-- Routing between providers that it knows keeps to the rules. -/
theorem law_route {source target : ProviderNode} (hsource : g.node? source.id = some source)
    (htarget : g.node? target.id = some target) :
    Law calls source.id target.id (route g source target) := by
  have wf := GraphBuilder.wellFormed_of_build built
  have hdeclares : g.hasEdge source.id target.id = true ↔
      BuilderCall.Declares calls source.id target.id := GraphBuilder.hasEdge_run_iff built
  have no (hedge : g.hasEdge source.id target.id = false) :
      ¬ BuilderCall.Declares calls source.id target.id := by
    rw [← hdeclares, hedge]
    exact Bool.false_ne_true
  have no_hub {node : ProviderNode} (hnode : g.node? node.id = some node)
      (hrole : node.role.isHub = false) : ¬ BuilderCall.AddsHub calls node.id := by
    rw [addsHub_iff_of_node? built hnode, hrole]
    exact Bool.false_ne_true
  rcases route_cases g source target with ⟨hedge, hroute⟩ | ⟨hub, hedge, hs, ht, hbridge, hroute⟩ |
    ⟨hedge, closed, hroute⟩
  · rw [hroute]
    exact .along_direct (hdeclares.1 hedge)
  · rw [hroute]
    have relays := relays_of_bridges built (bridges_of_bridgingHub? hbridge)
    refine .along_relayed (no hedge) (no_hub hsource hs) (no_hub htarget ht) relays ?_
    intro other hother
    obtain ⟨node, rfl, bridges⟩ := exists_bridges_of_relays built hother
    exact bridgingHub?_le wf hbridge bridges
  · rw [hroute]
    refine .unreachable (no hedge) ?_
    rcases closed with hs | ht | alone
    · exact Or.inl ((addsHub_iff_of_node? built hsource).2 hs)
    · exact Or.inr (Or.inl ((addsHub_iff_of_node? built htarget).2 ht))
    · right
      right
      intro hub relays
      obtain ⟨node, _, bridges⟩ := exists_bridges_of_relays built relays
      exact alone node bridges

end Route

/-- Between two distinct providers of a built graph hub-and-spoke routing keeps to its rules. -/
theorem trustPath_law (networkId : String) (calls : List BuilderCall) (g : TrustGraph)
    (built : (GraphBuilder.run networkId calls).build = .ok g) (source target : ProviderId)
    (hsource : g.contains source = true) (htarget : g.contains target = true)
    (hne : source ≠ target) : Law calls source target (policy.trustPath g source target) := by
  have wf := GraphBuilder.wellFormed_of_build built
  rcases Policy.trustPath_cases wf hne with ⟨s, t, rfl, rfl, hs, ht, hroute⟩ | ⟨missing, _⟩
  · rw [hroute policy]
    exact law_route built hs ht
  · exact False.elim (missing ⟨hsource, htarget⟩)

/-- Two spokes with three hubs, the first of which the source trusts in vain. -/
def threeHubs : List BuilderCall :=
  [.addTrust ⟨"a"⟩ ⟨"é"⟩ .explicit, .addTrust ⟨"é"⟩ ⟨"b"⟩ .transitive,
    .addTrust ⟨"a"⟩ ⟨"z"⟩ .explicit, .addTrust ⟨"z"⟩ ⟨"b"⟩ .explicit,
    .addTrust ⟨"a"⟩ ⟨"h"⟩ .explicit, .addProvider ⟨"é"⟩ "https://e" .hub,
    .addProvider ⟨"z"⟩ "https://z" .hub, .addProvider ⟨"h"⟩ "https://h" .hub,
    .addProvider ⟨"a"⟩ "https://a" .spoke, .addProvider ⟨"b"⟩ "https://b" .peer]

/-- The graph of the three hubs. -/
def threeHubsGraph : TrustGraph :=
  (GraphBuilder.run "net" threeHubs).freeze

/-- Of the two hubs that lead on, the route takes the one whose octets come first. -/
theorem trustPath_threeHubs :
    (GraphBuilder.run "net" threeHubs).build = .ok threeHubsGraph ∧
      Law threeHubs ⟨"a"⟩ ⟨"b"⟩ (policy.trustPath threeHubsGraph ⟨"a"⟩ ⟨"b"⟩) ∧
      (policy.trustPath threeHubsGraph ⟨"a"⟩ ⟨"b"⟩).path = [⟨"a"⟩, ⟨"z"⟩, ⟨"b"⟩] := by
  have built : (GraphBuilder.run "net" threeHubs).build = .ok threeHubsGraph := rfl
  have hsource : threeHubsGraph.contains ⟨"a"⟩ = true := by decide +kernel
  have htarget : threeHubsGraph.contains ⟨"b"⟩ = true := by decide +kernel
  have hne : (⟨"a"⟩ : ProviderId) ≠ ⟨"b"⟩ := by decide
  exact ⟨built, trustPath_law "net" threeHubs _ built _ _ hsource htarget hne, by decide +kernel⟩

end HubAndSpoke

end Federation
