import Federation.Graph.Index

/-!
# Trust graphs

A trust graph is a snapshot of one federation network: its providers by identifier, its declared
trust, and the topology that decides how trust is routed.
-/

namespace Federation

/-- A snapshot of one federation network. -/
structure TrustGraph where
  networkId : String
  topology : Topology
  /-- Marks the source the snapshot was taken from. -/
  version : Option String
  metadata : Table String String
  nodes : Table ProviderId ProviderNode
  trust : TrustIndex
deriving DecidableEq, Inhabited

namespace TrustGraph

/-- The provider with an identifier. -/
def node? (g : TrustGraph) (id : ProviderId) : Option ProviderNode :=
  g.nodes.get? id

/-- Whether a provider with the identifier exists. -/
def contains (g : TrustGraph) (id : ProviderId) : Bool :=
  g.nodes.contains id

/-- The identifiers of all providers, ascending. -/
def ids (g : TrustGraph) : List ProviderId :=
  g.nodes.keys

/-- The distinct trust edges in the order of declaration. -/
def edges (g : TrustGraph) : List TrustEdge :=
  g.trust.edges

def nodeCount (g : TrustGraph) : Nat :=
  g.nodes.size

def edgeCount (g : TrustGraph) : Nat :=
  g.edges.length

/-- Whether `source` trusts `target` directly. -/
def hasEdge (g : TrustGraph) (source target : ProviderId) : Bool :=
  g.trust.hasEdge source target

/-- The providers that `id` trusts directly, in the order of declaration. -/
def outgoing (g : TrustGraph) (id : ProviderId) : List ProviderId :=
  g.trust.outgoing id

/-- The hubs in ascending order of their identifiers. -/
def hubs (g : TrustGraph) : List ProviderNode :=
  g.nodes.values.filter (·.role.isHub)

end TrustGraph

end Federation
