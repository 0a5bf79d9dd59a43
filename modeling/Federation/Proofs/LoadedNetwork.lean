import Federation.Network.Report
import Federation.Proofs.DocumentGraph
import Federation.Proofs.StoredDocument

/-!
# Networks from files

A network that is loaded has the graph of a sound document that was understood. A file that holds
the text of a sound document can be loaded.
-/

namespace Federation.TrustGraph

/-- A network that was loaded is that of a sound document whose topology was understood. -/
theorem exists_document_of_load {files : Files} {path : String} {g : TrustGraph}
    (h : load files path = .ok g) : (∃ text, files path = .ok text) ∧
      ∃ doc : NetworkDocument, doc.Understood ∧ doc.toGraph = .ok g := by
  obtain ⟨doc, hdoc, hgraph⟩ := Outcome.bind_eq_ok_iff.1 (Outcome.mapError_eq_ok_iff.1 h)
  obtain ⟨text, htext, hparse⟩ := Outcome.bind_eq_ok_iff.1 hdoc
  exact ⟨⟨text, Outcome.mapError_eq_ok_iff.1 htext⟩, doc,
    NetworkDocument.understood_of_parse hparse, Outcome.mapError_eq_ok_iff.1 hgraph⟩

/-- The network in a file that holds a sound document is that of the document. -/
theorem load_of_stored {files : Files} {path : String} {doc : NetworkDocument}
    (json : DocumentFormat.ofPath path = .json) (stored : files path = .ok doc.toJsonText)
    (sound : doc.validate = .ok ()) (readable : ∀ t, doc.registryVersion = some t → t.Readable) :
    load files path = .ok doc.normalized.toBuilder.freeze := by
  have valid : doc.normalized.validate = .ok () := sound
  apply Outcome.mapError_eq_ok_iff.2
  rw [NetworkDocument.loadGraph, NetworkDocument.load_of_stored json stored sound readable]
  exact Outcome.mapError_eq_ok_iff.2 (NetworkDocument.toGraph_of_validate valid)

/-- The roles and the topology of a graph are what their texts are understood as. -/
structure Understood (g : TrustGraph) : Prop where
  topology_eq : Topology.ofName g.topology.name = g.topology
  role_eq : ∀ id node, g.node? id = some node → Role.ofTag node.role.tag = node.role

theorem understood_of_load {files : Files} {path : String} {g : TrustGraph}
    (h : load files path = .ok g) : g.Understood := by
  obtain ⟨-, doc, understood, built⟩ := exists_document_of_load h
  constructor
  · rw [NetworkDocument.topology_of_toGraph built]
    exact understood.topology_eq
  · rintro ⟨id⟩ node hnode
    obtain ⟨entry, -, rfl⟩ := (NetworkDocument.node?_toGraph_iff built).1 hnode
    exact congrArg Role.ofTag (Role.tag_ofTag entry.role)

namespace Understood

variable {g : TrustGraph} (understood : g.Understood)
include understood

theorem topology_eq_iff {t : Topology} (h : Topology.ofName t.name = t) :
    g.topology.name = t.name ↔ g.topology = t := by
  constructor
  · intro hname
    rw [← understood.topology_eq, hname, h]
  · exact congrArg _

theorem hubs_ne_nil_iff :
    g.hubs ≠ [] ↔ ∃ id node, g.node? id = some node ∧ node.role.tag = "hub" := by
  constructor
  · intro nonempty
    obtain ⟨node, hmem⟩ := List.exists_mem_of_ne_nil _ nonempty
    obtain ⟨⟨id, hnode⟩, hhub⟩ := mem_hubs_iff.1 hmem
    refine ⟨id, node, hnode, ?_⟩
    rw [← understood.role_eq id node hnode] at hhub
    exact Role.isHub_ofTag.1 hhub
  · rintro ⟨id, node, hnode, htag⟩
    have hhub : node.role.isHub = true := by
      rw [← understood.role_eq id node hnode]
      exact Role.isHub_ofTag.2 htag
    exact List.ne_nil_of_mem (mem_hubs_iff.2 ⟨⟨id, hnode⟩, hhub⟩)

end Understood

end Federation.TrustGraph
