import Federation.Network.Report
import Federation.Proofs.BuilderCheck
import Federation.Proofs.DeclaredTrust
import Mathlib.Algebra.BigOperators.Group.Finset.Basic
import Mathlib.Algebra.Ring.Nat

/-!
# What a built graph represents

A graph is built by a sequence of calls to a builder. The graph holds the providers that were added
and the trust that was declared, nothing else, and all its views of them agree: the table of
providers, the edges, the targets of each provider and the test for an edge. Routing reads each of
the views on its own.
-/

namespace Federation

/-- What the routing of a graph relies on. -/
structure TrustGraph.WellFormed (g : TrustGraph) : Prop where
  /-- Every provider stands under its own identifier. -/
  keyed : ∀ id node, g.node? id = some node → node.id = id
  consistent : g.trust.Consistent
  /-- Edges run between providers. -/
  connected : ∀ source target, g.hasEdge source target = true →
    g.contains source = true ∧ g.contains target = true

/-- A call to a builder. -/
inductive BuilderCall where
  | setTopology (topology : Topology)
  | setVersion (version : String)
  | insertMetadata (key value : String)
  | addProvider (id : ProviderId) (issuer : String) (role : Role)
  | addProviderNode (node : ProviderNode)
  | addTrust (source target : ProviderId) (level : TrustLevel)
deriving DecidableEq, Inhabited

namespace BuilderCall

/-- The provider that a call adds. -/
def provider? : BuilderCall → Option ProviderNode
  | addProvider id issuer role => some ⟨id, issuer, role, {}⟩
  | addProviderNode node => some node
  | _ => none

/-- The trust that a call declares. -/
def trust? : BuilderCall → Option TrustEdge
  | addTrust source target level => some ⟨source, target, level⟩
  | _ => none

end BuilderCall

namespace GraphBuilder

/-- Carries out a call. -/
def call (b : GraphBuilder) : BuilderCall → GraphBuilder
  | .setTopology topology => b.setTopology topology
  | .setVersion version => b.setVersion version
  | .insertMetadata key value => b.insertMetadata key value
  | .addProvider id issuer role => b.addProvider ⟨id, issuer, role, {}⟩
  | .addProviderNode node => b.addProvider node
  | .addTrust source target level => b.addTrust source target level

/-- Carries out a sequence of calls on a builder for a network. -/
def run (networkId : String) (calls : List BuilderCall) : GraphBuilder :=
  calls.foldl call { networkId }

theorem nodes_call (b : GraphBuilder) (c : BuilderCall) :
    (b.call c).nodes = b.nodes ++ c.provider?.toList := by
  cases c <;> simp [call, BuilderCall.provider?, setTopology, setVersion, insertMetadata,
    addProvider, addTrust]

theorem edges_call (b : GraphBuilder) (c : BuilderCall) :
    (b.call c).edges = b.edges ++ c.trust?.toList := by
  cases c <;> simp [call, BuilderCall.trust?, setTopology, setVersion, insertMetadata,
    addProvider, addTrust]

theorem nodes_foldl_call (b : GraphBuilder) (calls : List BuilderCall) :
    (calls.foldl call b).nodes = b.nodes ++ calls.filterMap BuilderCall.provider? := by
  induction calls generalizing b with
  | nil => simp
  | cons c rest ih =>
    rw [List.foldl_cons, ih, nodes_call, List.append_assoc, List.filterMap_cons]
    cases c.provider? <;> rfl

theorem edges_foldl_call (b : GraphBuilder) (calls : List BuilderCall) :
    (calls.foldl call b).edges = b.edges ++ calls.filterMap BuilderCall.trust? := by
  induction calls generalizing b with
  | nil => simp
  | cons c rest ih =>
    rw [List.foldl_cons, ih, edges_call, List.append_assoc, List.filterMap_cons]
    cases c.trust? <;> rfl

/-- The providers of a run are those its calls add, in the order of the calls. -/
theorem nodes_run (networkId : String) (calls : List BuilderCall) :
    (run networkId calls).nodes = calls.filterMap BuilderCall.provider? :=
  nodes_foldl_call _ calls

/-- The edges of a run are those its calls declare, in the order of the calls. -/
theorem edges_run (networkId : String) (calls : List BuilderCall) :
    (run networkId calls).edges = calls.filterMap BuilderCall.trust? :=
  edges_foldl_call _ calls

section Built

variable {b : GraphBuilder} {g : TrustGraph} (built : b.build = .ok g)
include built

/-- The table of providers holds exactly the added providers, each as it was added. -/
theorem node?_of_build (id : ProviderId) (node : ProviderNode) :
    g.node? id = some node ↔ node ∈ b.nodes ∧ node.id = id := by
  obtain ⟨sound, rfl⟩ := build_eq_ok_iff.1 built
  have distinct : ((b.nodes.map fun node => (node.id, node)).map (·.1)).Nodup := by
    simpa [Function.comp_def] using sound.distinct
  rw [TrustGraph.node?, freeze, Table.get?_ofList distinct, List.mem_map]
  constructor
  · rintro ⟨n, hn, heq⟩
    obtain ⟨rfl, rfl⟩ := Prod.mk.inj heq
    exact ⟨hn, rfl⟩
  · rintro ⟨hn, rfl⟩
    exact ⟨node, hn, rfl⟩

theorem contains_of_build (id : ProviderId) :
    g.contains id = true ↔ id ∈ b.nodes.map (·.id) := by
  have hcontains : g.contains id = (g.node? id).isSome := rfl
  rw [hcontains, Option.isSome_iff_exists, List.mem_map]
  exact exists_congr fun node => node?_of_build built id node

theorem edges_of_build : g.edges = TrustIndex.firstDeclared b.edges := by
  obtain ⟨_, rfl⟩ := build_eq_ok_iff.1 built
  exact TrustIndex.edges_ofList b.edges

/-- There is an edge exactly where trust was declared. -/
theorem hasEdge_of_build (source target : ProviderId) :
    g.hasEdge source target = true ↔ (source, target) ∈ b.edges.map TrustEdge.ends := by
  obtain ⟨_, rfl⟩ := build_eq_ok_iff.1 built
  exact TrustIndex.hasEdge_ofList b.edges source target

theorem wellFormed_of_build : g.WellFormed := by
  refine ⟨fun id node h => ((node?_of_build built id node).1 h).2, ?_, fun source target h => ?_⟩
  · obtain ⟨_, rfl⟩ := build_eq_ok_iff.1 built
    exact TrustIndex.consistent_ofList b.edges
  · obtain ⟨e, he, hends⟩ := List.mem_map.1 ((hasEdge_of_build built source target).1 h)
    obtain ⟨rfl, rfl⟩ := Prod.mk.inj hends
    have connected := (build_eq_ok_iff.1 built).1.connected e he
    exact ⟨(contains_of_build built _).2 connected.1, (contains_of_build built _).2 connected.2⟩

end Built

end GraphBuilder

namespace TrustGraph

variable {g : TrustGraph}

theorem contains_iff {id : ProviderId} : g.contains id = true ↔ id ∈ g.ids :=
  Table.contains_iff

theorem mem_hubs_iff {node : ProviderNode} :
    node ∈ g.hubs ↔ (∃ id, g.node? id = some node) ∧ node.role.isHub = true := by
  rw [hubs, List.mem_filter, Table.mem_values_iff]
  rfl

/-- A provider of the graph has the role of a hub. -/
def HasHub (g : TrustGraph) (id : ProviderId) : Prop :=
  ∃ node, g.node? id = some node ∧ node.role.isHub = true

theorem hasHub_iff_of_node? {id : ProviderId} {node : ProviderNode}
    (hnode : g.node? id = some node) : g.HasHub id ↔ node.role.isHub = true := by
  simp [HasHub, hnode]

theorem ids_ascending (g : TrustGraph) : g.ids.Pairwise (· < ·) :=
  g.nodes.keys_ascending

namespace WellFormed

variable (wf : g.WellFormed)
include wf

/-- The providers, in the order of their identifiers, have these identifiers. -/
theorem map_id_values : g.nodes.values.map (·.id) = g.ids := by
  rw [ids, Table.keys, Table.values, List.map_map]
  refine List.map_congr_left fun e he => ?_
  exact wf.keyed e.1 e.2 (Table.get?_eq_some_iff.2 he)

theorem mem_values_iff {node : ProviderNode} :
    node ∈ g.nodes.values ↔ g.node? node.id = some node := by
  rw [Table.mem_values_iff]
  constructor
  · rintro ⟨id, h⟩
    obtain rfl := wf.keyed id node h
    exact h
  · exact fun h => ⟨node.id, h⟩

theorem mem_hubs_iff_node? {node : ProviderNode} :
    node ∈ g.hubs ↔ g.node? node.id = some node ∧ node.role.isHub = true := by
  rw [hubs, List.mem_filter, wf.mem_values_iff]

theorem exists_hub_iff {P : ProviderId → Prop} :
    (∃ hub ∈ g.hubs, P hub.id) ↔ ∃ id, g.HasHub id ∧ P id := by
  constructor
  · rintro ⟨hub, hmem, hP⟩
    obtain ⟨hnode, hrole⟩ := wf.mem_hubs_iff_node?.1 hmem
    exact ⟨hub.id, ⟨hub, hnode, hrole⟩, hP⟩
  · rintro ⟨id, ⟨hub, hnode, hrole⟩, hP⟩
    obtain rfl := wf.keyed id hub hnode
    exact ⟨hub, wf.mem_hubs_iff_node?.2 ⟨hnode, hrole⟩, hP⟩

theorem hasEdge_iff {source target : ProviderId} :
    g.hasEdge source target = true ↔ ∃ e ∈ g.edges, e.source = source ∧ e.target = target := by
  rw [hasEdge, wf.consistent.hasEdge_iff, List.mem_map]
  exact exists_congr fun e => and_congr_right fun _ => Prod.mk.injEq .. ▸ Iff.rfl

theorem mem_outgoing_iff {source target : ProviderId} :
    target ∈ g.outgoing source ↔ g.hasEdge source target = true :=
  wf.consistent.mem_outgoing_iff

/-- Each edge is counted once, with its source. -/
theorem sum_outgoing_length : (g.ids.map fun id => (g.outgoing id).length).sum = g.edgeCount := by
  have sources : ∀ id ∈ (g.edges.map (·.source) : Multiset ProviderId),
      id ∈ (⟨g.ids, g.nodes.keys_nodup⟩ : Finset ProviderId) := by
    intro id hid
    obtain ⟨e, he, rfl⟩ := List.mem_map.1 (Multiset.mem_coe.1 hid)
    exact contains_iff.1 (wf.connected _ _ (wf.hasEdge_iff.2 ⟨e, he, rfl, rfl⟩)).1
  -- the lists of targets have the lengths of the classes of edges by source
  have count_source : ∀ id, (g.outgoing id).length = (g.edges.map (·.source)).count id := by
    intro id
    rw [outgoing, wf.consistent.outgoing_eq, List.length_map, ← List.countP_eq_length_filter,
      List.count, List.countP_map]
    exact List.countP_congr fun e _ => by simp
  calc (g.ids.map fun id => (g.outgoing id).length).sum
      = (g.ids.map fun id => (g.edges.map (·.source)).count id).sum := by simp only [count_source]
    _ = (g.edges.map (·.source)).length := by
        simpa only [Finset.sum, Multiset.map_coe, Multiset.sum_coe, Multiset.coe_count,
          Multiset.coe_card] using Multiset.sum_count_eq_card sources
    _ = g.edgeCount := List.length_map ..

/-- Each provider is listed once, in the order of identifiers. -/
theorem map_id_providerList : g.providerList.map (·.id) = g.ids := by
  rw [← wf.map_id_values, providerList, List.map_map]
  rfl

theorem mem_providerList_iff {listing : ProviderListing} :
    listing ∈ g.providerList ↔ ∃ node, g.node? node.id = some node ∧
      listing = ⟨node.id, node.issuer, node.role.tag, g.outgoing node.id⟩ := by
  rw [providerList, List.mem_map]
  exact exists_congr fun node => and_congr wf.mem_values_iff eq_comm

theorem sum_trusts_length :
    (g.providerList.map fun listing => listing.trusts.length).sum = g.edgeCount := by
  rw [← wf.sum_outgoing_length, ← wf.map_id_values, providerList, List.map_map, List.map_map]
  rfl

end WellFormed

/-- A graph holds the providers that calls add and the trust that they declare, in every view that
it offers. -/
structure Represents (g : TrustGraph) (calls : List BuilderCall) : Prop where
  /-- The added providers, each under its own identifier and with all its data. -/
  node?_iff : ∀ id node,
    g.node? id = some node ↔ node ∈ calls.filterMap BuilderCall.provider? ∧ node.id = id
  /-- The declarations in the order of the calls, the first of each ordered pair. -/
  edges_eq : g.edges = TrustIndex.firstDeclared (calls.filterMap BuilderCall.trust?)
  connected : ∀ e ∈ g.edges, g.contains e.source = true ∧ g.contains e.target = true
  hasEdge_iff_edge : ∀ source target, g.hasEdge source target = true ↔
    ∃ e ∈ g.edges, e.source = source ∧ e.target = target
  hasEdge_iff_called : ∀ source target, g.hasEdge source target = true ↔
    ∃ level, BuilderCall.addTrust source target level ∈ calls
  outgoing_eq : ∀ source,
    g.outgoing source = (g.edges.filter (·.source = source)).map (·.target)
  outgoing_nodup : ∀ source, (g.outgoing source).Nodup
  /-- The listing shows the added providers with those they trust. -/
  mem_providerList_iff : ∀ listing, listing ∈ g.providerList ↔
    ∃ node ∈ calls.filterMap BuilderCall.provider?,
      listing = ⟨node.id, node.issuer, node.role.tag, g.outgoing node.id⟩
  providerList_ascending : (g.providerList.map (·.id)).Pairwise (· < ·)
  sum_trusts_length :
    (g.providerList.map fun listing => listing.trusts.length).sum = g.edgeCount

end TrustGraph

theorem BuilderCall.mem_trusts_iff {calls : List BuilderCall} {e : TrustEdge} :
    e ∈ calls.filterMap trust? ↔ addTrust e.source e.target e.level ∈ calls := by
  rw [List.mem_filterMap]
  constructor
  · rintro ⟨c, hc, htrust⟩
    cases c <;> simp only [trust?, reduceCtorEq, Option.some.injEq] at htrust
    subst htrust
    exact hc
  · exact fun h => ⟨_, h, rfl⟩

/-- Whatever calls were made in whatever order, a graph that is built from them represents them. -/
theorem GraphBuilder.represents_of_build_run (networkId : String) (calls : List BuilderCall)
    (g : TrustGraph) (built : (GraphBuilder.run networkId calls).build = .ok g) :
    g.Represents calls := by
  have wf := wellFormed_of_build built
  have node?_iff : ∀ id node, g.node? id = some node ↔
      node ∈ calls.filterMap BuilderCall.provider? ∧ node.id = id := fun id node => by
    rw [node?_of_build built, nodes_run]
  refine ⟨node?_iff, ?_, fun e he => ?_, fun _ _ => wf.hasEdge_iff, fun source target => ?_,
    wf.consistent.outgoing_eq, wf.consistent.outgoing_nodup, fun listing => ?_, ?_,
    wf.sum_trusts_length⟩
  · rw [edges_of_build built, edges_run]
  · exact wf.connected _ _ (wf.hasEdge_iff.2 ⟨e, he, rfl, rfl⟩)
  · rw [hasEdge_of_build built, edges_run, List.mem_map]
    constructor
    · rintro ⟨e, he, hends⟩
      obtain ⟨rfl, rfl⟩ := Prod.mk.inj hends
      exact ⟨e.level, BuilderCall.mem_trusts_iff.1 he⟩
    · rintro ⟨level, h⟩
      exact ⟨⟨source, target, level⟩, BuilderCall.mem_trusts_iff.2 h, rfl⟩
  · rw [wf.mem_providerList_iff]
    simp only [node?_iff, and_true]
  · rw [wf.map_id_providerList]
    exact g.ids_ascending

/-- Calls that declare trust before there are providers, in both directions, of a provider in
itself, and for one pair twice with different levels. -/
def BuilderCall.tangled : List BuilderCall :=
  [.addTrust ⟨"b"⟩ ⟨"a"⟩ .transitive, .setTopology .peerToPeer,
    .addProvider ⟨"b"⟩ "https://b" .peer, .addTrust ⟨"a"⟩ ⟨"b"⟩ .explicit,
    .addTrust ⟨"b"⟩ ⟨"a"⟩ .explicit, .insertMetadata "tier" "1", .addTrust ⟨"b"⟩ ⟨"b"⟩ .explicit,
    .addProviderNode ⟨⟨"a"⟩, "https://a", .hub, Table.ofList [("tier", "2")]⟩]

/-- The first level declared for the pair stays, in its place. -/
theorem GraphBuilder.represents_tangled :
    ∃ g, (run "net" BuilderCall.tangled).build = .ok g ∧ g.Represents BuilderCall.tangled ∧
      g.edges = [⟨⟨"b"⟩, ⟨"a"⟩, .transitive⟩, ⟨⟨"a"⟩, ⟨"b"⟩, .explicit⟩,
        ⟨⟨"b"⟩, ⟨"b"⟩, .explicit⟩] := by
  have built : (run "net" BuilderCall.tangled).build = .ok (run "net" BuilderCall.tangled).freeze :=
    rfl
  exact ⟨_, built, represents_of_build_run "net" BuilderCall.tangled _ built, by decide +kernel⟩

end Federation
