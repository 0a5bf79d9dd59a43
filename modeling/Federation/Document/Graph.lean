import Federation.Calendar.Text
import Federation.Document.Basic
import Federation.Graph.Builder

/-!
# The graph of a document

The providers of a document are added in ascending order of their identifiers and its relationships
in their order. The registry version becomes the version of the graph, written with the offset
`+00:00`.
-/

namespace Federation.NetworkDocument

/-- The node that a provider's description stands for. -/
def nodeOf (id : String) (entry : ProviderEntry) : ProviderNode :=
  ⟨⟨id⟩, entry.issuer, .ofTag entry.role, entry.metadata⟩

/-- The edge that a relationship stands for. -/
def edgeOf (entry : TrustEntry) : TrustEdge :=
  ⟨⟨entry.source⟩, ⟨entry.target⟩, entry.level⟩

/-- The version of a graph taken from a registry at an instant. -/
def graphVersion (t : Instant) : String :=
  t.write "+00:00"

/-- The network under construction that a document describes. -/
def toBuilder (doc : NetworkDocument) : GraphBuilder where
  networkId := doc.networkId
  topology := doc.topology
  version := doc.registryVersion.map graphVersion
  metadata := doc.metadata
  nodes := doc.providers.entries.map fun e => nodeOf e.1 e.2
  edges := doc.relationships.map edgeOf

/-- The graph that a document describes. -/
def toGraph (doc : NetworkDocument) : Except GraphError TrustGraph :=
  doc.toBuilder.build

end Federation.NetworkDocument
