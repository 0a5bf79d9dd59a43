import Federation.Graph.Cycle
import Federation.Network.Error
import Federation.Policy.Registry

/-!
# Reports on networks

A summary counts a network and tells whether it fits its topology; a listing shows each provider
with those it trusts. Both read the graph and leave every decision to the registered policies.
-/

namespace Federation

/-- A network in short. -/
structure NetworkSummary where
  networkId : String
  topology : String
  version : Option String
  providerCount : Nat
  edgeCount : Nat
  hubs : List ProviderId
  /-- Whether the network fits its topology; absent when no policy serves the topology. -/
  fits : Option Bool
  hasCycle : Bool
deriving DecidableEq, Inhabited

/-- A provider with those it trusts. -/
structure ProviderListing where
  id : ProviderId
  issuer : String
  role : String
  trusts : List ProviderId
deriving DecidableEq, Inhabited

namespace TrustGraph

/-- The network in short. -/
def summary (g : TrustGraph) (registry : PolicyRegistry) : NetworkSummary where
  networkId := g.networkId
  topology := g.topology.name
  version := g.version
  providerCount := g.nodeCount
  edgeCount := g.edgeCount
  hubs := g.hubs.map (·.id)
  fits := (registry.forGraph? g).map fun policy => policy.validates (some g)
  hasCycle := g.findCycle.isSome

/-- The providers in ascending order of their identifiers. -/
def providerList (g : TrustGraph) : List ProviderListing :=
  g.nodes.values.map fun node => ⟨node.id, node.issuer, node.role.tag, g.outgoing node.id⟩

/-- The policy for a network, which must be registered. -/
def requirePolicy (g : TrustGraph) (registry : PolicyRegistry) : Except NetworkError Policy :=
  match registry.forGraph? g with
  | some policy => .ok policy
  | none => .error (.unknownTopology g.topology.name)

/-- Checks that a network has the structure of its topology. -/
def checkTopology (g : TrustGraph) (registry : PolicyRegistry) : Except NetworkError Unit := do
  let policy ← g.requirePolicy registry
  if !policy.validates (some g) then
    throw (.unfitting g.networkId policy.topology)

/-- Loads a network from its file. -/
def load (files : Files) (path : String) : Except NetworkError TrustGraph :=
  (NetworkDocument.loadGraph files path).mapError (.notLoaded path)

end TrustGraph

end Federation
