import Federation.Network.Report
import Federation.Proofs.DocumentGraph
import Federation.Proofs.Outcome

/-!
# From documents to graphs

Documents and networks are checked by two validators that know nothing of each other. What the
second one asks for is less than what the first one has found, so that a document that was read is
never refused as a graph, and the graph has all of the document and nothing else.
-/

namespace Federation.NetworkDocument

variable {doc : NetworkDocument}

/-! ### The calls that a document makes -/

/-- The calls to a builder that a document stands for. -/
def calls (doc : NetworkDocument) : List BuilderCall :=
  .setTopology doc.topology ::
    (doc.registryVersion.map fun t => BuilderCall.setVersion (graphVersion t)).toList ++
    doc.metadata.entries.map (fun e => .insertMetadata e.1 e.2) ++
    doc.providers.entries.map (fun e => .addProviderNode (nodeOf e.1 e.2)) ++
    doc.relationships.map (fun e => .addTrust ⟨e.source⟩ ⟨e.target⟩ e.level)

theorem foldl_insertMetadata (b : GraphBuilder) (l : List (String × String)) :
    (l.map fun e => BuilderCall.insertMetadata e.1 e.2).foldl GraphBuilder.call b =
      { b with metadata := l.foldl (fun t e => t.insert e.1 e.2) b.metadata } := by
  induction l generalizing b with
  | nil => rfl
  | cons e rest ih => exact ih _

theorem foldl_addProviderNode (b : GraphBuilder) (l : List (String × ProviderEntry)) :
    (l.map fun e => BuilderCall.addProviderNode (nodeOf e.1 e.2)).foldl GraphBuilder.call b =
      { b with nodes := b.nodes ++ l.map fun e => nodeOf e.1 e.2 } := by
  induction l generalizing b with
  | nil => simp
  | cons e rest ih =>
    have hstep := ih (b.call (.addProviderNode (nodeOf e.1 e.2)))
    simpa [GraphBuilder.call, GraphBuilder.addProvider] using hstep

theorem foldl_addTrust (b : GraphBuilder) (l : List TrustEntry) :
    (l.map fun e => BuilderCall.addTrust ⟨e.source⟩ ⟨e.target⟩ e.level).foldl GraphBuilder.call b =
      { b with edges := b.edges ++ l.map edgeOf } := by
  induction l generalizing b with
  | nil => simp
  | cons e rest ih =>
    have hstep := ih (b.call (.addTrust ⟨e.source⟩ ⟨e.target⟩ e.level))
    simpa [GraphBuilder.call, GraphBuilder.addTrust, edgeOf] using hstep

/-- The network that a document describes is the one that its calls make. -/
theorem run_calls (doc : NetworkDocument) :
    GraphBuilder.run doc.networkId doc.calls = doc.toBuilder := by
  have hmetadata : doc.metadata.entries.foldl (fun t e => t.insert e.1 e.2) {} = doc.metadata :=
    Table.ofList_entries doc.metadata
  rw [GraphBuilder.run, calls, List.foldl_append, List.foldl_append, List.foldl_append,
    foldl_addTrust, foldl_addProviderNode, foldl_insertMetadata]
  cases hversion : doc.registryVersion with
  | none =>
    simp [GraphBuilder.call, GraphBuilder.setTopology, toBuilder, hmetadata, hversion]
  | some t =>
    simp [GraphBuilder.call, GraphBuilder.setTopology, GraphBuilder.setVersion, toBuilder,
      hmetadata, hversion]

/-! ### What the builder asks of a document -/

/-- A document whose network the builder accepts. -/
structure Buildable (doc : NetworkDocument) : Prop where
  named : Text.trim doc.networkId ≠ ""
  identified : ∀ id ∈ doc.providers.keys, id ≠ ""
  connected : ∀ e ∈ doc.relationships,
    e.source ∈ doc.providers.keys ∧ e.target ∈ doc.providers.keys

theorem sound_toBuilder_iff : doc.toBuilder.Sound ↔ doc.Buildable := by
  have hempty : ∀ id : String, id.isEmpty = false ↔ id ≠ "" := by
    intro id
    rw [← Bool.not_eq_true, String.isEmpty_iff]
  have hend : ∀ id, ⟨id⟩ ∈ doc.toBuilder.nodes.map (·.id) ↔ id ∈ doc.providers.keys := by
    intro id
    rw [mem_ids_toBuilder, Table.contains_iff]
  constructor
  · intro sound
    refine ⟨Text.isBlank_eq_false_iff.1 sound.named, ?_, ?_⟩
    · intro id hid
      obtain ⟨node, hnode, heq⟩ := List.mem_map.1 ((hend id).2 hid)
      have hidentified := sound.identified node hnode
      rw [heq] at hidentified
      exact (hempty id).1 hidentified
    · intro e he
      have ends := sound.connected (edgeOf e) (List.mem_map_of_mem he)
      exact ⟨(hend _).1 ends.1, (hend _).1 ends.2⟩
  · intro buildable
    refine ⟨Text.isBlank_eq_false_iff.2 buildable.named, ?_, ?_, ?_⟩
    · intro node hnode
      have hid : node.id.text ∈ doc.providers.keys := (hend _).1 (List.mem_map_of_mem hnode)
      exact (hempty _).2 (buildable.identified _ hid)
    · rw [map_id_nodes_toBuilder]
      exact doc.providers.keys_nodup.map fun _ _ heq => ProviderId.mk.inj heq
    · intro e he
      obtain ⟨entry, hentry, rfl⟩ := List.mem_map.1 he
      have ends := buildable.connected entry hentry
      exact ⟨(hend _).2 ends.1, (hend _).2 ends.2⟩

theorem exists_toGraph_iff : (∃ g, doc.toGraph = .ok g) ↔ doc.Buildable :=
  GraphBuilder.exists_build_iff.trans sound_toBuilder_iff

/-! ### What the graph has of a document -/

/-- A graph that has everything that a document says and nothing else. -/
structure Describes (doc : NetworkDocument) (g : TrustGraph) : Prop where
  networkId_eq : g.networkId = doc.networkId
  topology_eq : g.topology = doc.topology
  version_eq : g.version = doc.registryVersion.map graphVersion
  metadata_eq : g.metadata = doc.metadata
  /-- One provider for each identifier of the document, and its description. -/
  ids_eq : g.ids = doc.providers.keys.map ProviderId.mk
  node?_eq : ∀ id, g.node? ⟨id⟩ = (doc.providers.get? id).map fun entry =>
    ⟨⟨id⟩, entry.issuer, .ofTag entry.role, entry.metadata⟩
  /-- The relationships in their order, the first of each ordered pair. -/
  edges_eq : g.edges = TrustIndex.firstDeclared
    (doc.relationships.map fun e => ⟨⟨e.source⟩, ⟨e.target⟩, e.level⟩)
  called : (GraphBuilder.run doc.networkId doc.calls).build = .ok g

theorem ids_of_toGraph {g : TrustGraph} (built : doc.toGraph = .ok g) :
    g.ids = doc.providers.keys.map ProviderId.mk := by
  obtain ⟨_, rfl⟩ := GraphBuilder.build_eq_ok_iff.1 built
  have hascending : (doc.toBuilder.nodes.map fun node => (node.id, node)).Pairwise
      fun a b => a.1 < b.1 := by
    simp only [toBuilder, List.pairwise_map]
    exact doc.providers.ascending
  rw [TrustGraph.ids, Table.keys, GraphBuilder.freeze, Table.entries_ofList hascending,
    List.map_map, ← map_id_nodes_toBuilder]
  rfl

theorem describes_of_toGraph {g : TrustGraph} (built : doc.toGraph = .ok g) :
    doc.Describes g where
  networkId_eq := by
    obtain ⟨_, rfl⟩ := GraphBuilder.build_eq_ok_iff.1 built
    rfl
  topology_eq := topology_of_toGraph built
  version_eq := by
    obtain ⟨_, rfl⟩ := GraphBuilder.build_eq_ok_iff.1 built
    rfl
  metadata_eq := by
    obtain ⟨_, rfl⟩ := GraphBuilder.build_eq_ok_iff.1 built
    rfl
  ids_eq := ids_of_toGraph built
  node?_eq id := by
    apply Option.ext
    intro node
    rw [node?_toGraph_iff built, Option.map_eq_some_iff]
    apply exists_congr
    intro entry
    exact and_congr_right fun _ => eq_comm
  edges_eq := GraphBuilder.edges_of_build built
  called := by
    rw [run_calls]
    exact built

/-! ### Reading graphs from files -/

theorem validate_of_load {files : Files} {path : String} (h : load files path = .ok doc) :
    doc.validate = .ok () := by
  obtain ⟨text, _, hparse⟩ := Outcome.bind_eq_ok_iff.1 h
  obtain ⟨read, _, hcheck⟩ := Outcome.bind_eq_ok_iff.1 hparse
  obtain ⟨_, hvalid, heq⟩ := Outcome.bind_eq_ok_iff.1 hcheck
  cases heq
  exact Outcome.mapError_eq_ok_iff.1 hvalid

theorem load_ne_noGraph (files : Files) (path : String) (e : GraphError) :
    load files path ≠ .error (.noGraph e) := by
  intro h
  rcases Outcome.bind_eq_error_iff.1 h with h | ⟨text, _, h⟩
  · obtain ⟨_, _, heq⟩ := Outcome.mapError_eq_error_iff.1 h
    cases heq
  · rcases Outcome.bind_eq_error_iff.1 h with h | ⟨read, _, h⟩
    · unfold ofText at h
      split at h
      · cases hyaml : ofYamlText? text <;> simp [hyaml, Option.elim] at h
      · obtain ⟨_, _, heq⟩ := Outcome.mapError_eq_error_iff.1 h
        cases heq
    · rcases Outcome.bind_eq_error_iff.1 h with h | ⟨_, _, h⟩
      · obtain ⟨_, _, heq⟩ := Outcome.mapError_eq_error_iff.1 h
        cases heq
      · cases h

/-- A document in a file is refused before its graph is built, or not at all. -/
theorem loadGraph_ne_noGraph (files : Files) (path : String) (e : GraphError) :
    loadGraph files path ≠ .error (.noGraph e) := by
  intro h
  rcases Outcome.bind_eq_error_iff.1 h with h | ⟨doc, hload, hgraph⟩
  · exact load_ne_noGraph files path e h
  · rw [graph, toGraph_of_validate (validate_of_load hload)] at hgraph
    cases hgraph

theorem load_network_ne_noGraph (files : Files) (path other : String) (e : GraphError) :
    TrustGraph.load files path ≠ .error (.notLoaded other (.noGraph e)) := by
  intro h
  obtain ⟨cause, hcause, heq⟩ := Outcome.mapError_eq_error_iff.1 h
  cases heq
  exact loadGraph_ne_noGraph files path e hcause

/-- A document has a graph exactly when it is named and its relationships hold between named
providers of it. What was validated always has one, whether or not it comes from a file, and the
graph has what the document says. -/
theorem toGraph_agrees (doc : NetworkDocument) :
    ((∃ g, doc.toGraph = .ok g) ↔ doc.Buildable) ∧
      (doc.validate = .ok () → ∃ g, doc.toGraph = .ok g) ∧
      (∀ g, doc.toGraph = .ok g → doc.Describes g) ∧
      (∀ files path e, loadGraph files path ≠ .error (.noGraph e)) ∧
      ∀ files path other e,
        TrustGraph.load files path ≠ .error (.notLoaded other (.noGraph e)) :=
  ⟨exists_toGraph_iff, fun valid => ⟨_, toGraph_of_validate valid⟩,
    fun _ built => describes_of_toGraph built, loadGraph_ne_noGraph, load_network_ne_noGraph⟩

/-- A provider with a blank name, and a relationship that is described twice. -/
def blankProvider : NetworkDocument where
  networkId := "net"
  metadata := .ofList [("tier", "1")]
  providers := .ofList [("a", ⟨"https://a", "spoke", {}⟩), (" ", ⟨"https://blank", "hub", {}⟩)]
  relationships := [⟨"a", " ", .transitive⟩, ⟨" ", "a", .explicit⟩, ⟨"a", " ", .explicit⟩]

/-- The same network with a provider that has a name. -/
def namedProvider : NetworkDocument :=
  { blankProvider with
    providers := .ofList [("a", ⟨"https://a", "spoke", {}⟩), ("b", ⟨"https://blank", "hub", {}⟩)]
    relationships := [⟨"a", "b", .transitive⟩, ⟨"b", "a", .explicit⟩] }

/-- The first document is not valid, since names of providers must not be blank, but it has a graph;
the second one is valid and has one. -/
theorem toGraph_blankProvider :
    blankProvider.validate =
        .error (.invalidValue "providers" " " "provider ID must not be empty") ∧
      (∃ g, blankProvider.toGraph = .ok g ∧ blankProvider.Describes g ∧
        g.edges = [⟨⟨"a"⟩, ⟨" "⟩, .transitive⟩, ⟨⟨" "⟩, ⟨"a"⟩, .explicit⟩]) ∧
      namedProvider.validate = .ok () ∧
      ∃ g, namedProvider.toGraph = .ok g ∧ namedProvider.Describes g := by
  obtain ⟨built_iff, _, describes, _⟩ := toGraph_agrees blankProvider
  have buildable : blankProvider.Buildable :=
    ⟨by decide +kernel, by decide +kernel, by decide +kernel⟩
  obtain ⟨g, built⟩ := built_iff.2 buildable
  have hedges : g.edges = [⟨⟨"a"⟩, ⟨" "⟩, .transitive⟩, ⟨⟨" "⟩, ⟨"a"⟩, .explicit⟩] :=
    (describes g built).edges_eq.trans (by decide +kernel)
  obtain ⟨_, of_valid, describes', _⟩ := toGraph_agrees namedProvider
  have valid : namedProvider.validate = .ok () := rfl
  obtain ⟨g', built'⟩ := of_valid valid
  exact ⟨rfl, ⟨g, built, describes g built, hedges⟩, valid, g', built', describes' g' built'⟩

end Federation.NetworkDocument
