import Federation.Graph.Basic
import Federation.Text.Quoted

/-!
# Building trust graphs

A builder collects providers and trust in any order. Building checks them and freezes them into a
graph: the network needs a name, providers need distinct identifiers that are not empty, and both
ends of every declared edge must be providers. The first fault in that order is reported.
-/

namespace Federation

/-- A fault in the structure of a network. -/
inductive GraphFault where
  | emptyNetworkId
  | emptyProviderId
  | duplicateProvider (id : ProviderId)
  | unknownEndpoint (source target missing : ProviderId)
deriving DecidableEq, Inhabited

/-- Why a graph was not built. -/
inductive GraphError where
  | invalidArgument (what : String)
  | unknownProvider (id : ProviderId)
deriving DecidableEq, Inhabited

/-- The wording of a fault. -/
def GraphFault.message : GraphFault → String
  | emptyNetworkId => "Network ID must not be empty"
  | emptyProviderId => "Provider ID must not be empty"
  | duplicateProvider id => "Provider " ++ id.text ++ " is declared more than once"
  | unknownEndpoint source target missing =>
    "Trust edge " ++ source.text ++ " -> " ++ target.text ++
      " refers to non-existent provider " ++ missing.text

/-- A missing endpoint is an unknown provider; all other faults are invalid arguments. -/
def GraphFault.toError : GraphFault → GraphError
  | unknownEndpoint _ _ missing => .unknownProvider missing
  | fault => .invalidArgument fault.message

/-- The wording of an error. -/
def GraphError.message : GraphError → String
  | invalidArgument what => "Invalid argument: " ++ what
  | unknownProvider id => "Unknown provider: " ++ id.text

/-- The error as it is shown in diagnostics. -/
def GraphError.describe : GraphError → String
  | invalidArgument what => "InvalidArg \x7b what: " ++ Text.quoted what ++ " \x7d"
  | unknownProvider id => "UnknownProvider \x7b id: " ++ Text.quoted id.text ++ " \x7d"

/-- A network under construction; providers and edges stand in the order they were added. -/
structure GraphBuilder where
  networkId : String
  topology : Topology := .hubAndSpoke
  version : Option String := none
  metadata : Table String String := {}
  nodes : List ProviderNode := []
  edges : List TrustEdge := []
deriving DecidableEq, Inhabited

namespace GraphBuilder

def setTopology (b : GraphBuilder) (t : Topology) : GraphBuilder :=
  { b with topology := t }

def setVersion (b : GraphBuilder) (version : String) : GraphBuilder :=
  { b with version := some version }

def insertMetadata (b : GraphBuilder) (key value : String) : GraphBuilder :=
  { b with metadata := b.metadata.insert key value }

/-- Adds a provider. -/
def addProvider (b : GraphBuilder) (node : ProviderNode) : GraphBuilder :=
  { b with nodes := b.nodes ++ [node] }

/-- Declares that `source` trusts `target`. -/
def addTrust (b : GraphBuilder) (source target : ProviderId) (level : TrustLevel) :
    GraphBuilder :=
  { b with edges := b.edges ++ [⟨source, target, level⟩] }

/-- Checks the identifiers of providers against those `seen` before them. -/
def checkProviders (seen : List ProviderId) : List ProviderNode → Except GraphFault Unit
  | [] => .ok ()
  | node :: rest =>
    if node.id.isEmpty then .error .emptyProviderId
    else if seen.contains node.id then .error (.duplicateProvider node.id)
    else checkProviders (node.id :: seen) rest

/-- Checks that the ends of edges are among `ids`, the source of an edge before its target. -/
def checkEdges (ids : List ProviderId) : List TrustEdge → Except GraphFault Unit
  | [] => .ok ()
  | e :: rest =>
    if !ids.contains e.source then .error (.unknownEndpoint e.source e.target e.source)
    else if !ids.contains e.target then .error (.unknownEndpoint e.source e.target e.target)
    else checkEdges ids rest

/-- The first fault of the network, if it has any. -/
def check (b : GraphBuilder) : Except GraphFault Unit := do
  if Text.isBlank b.networkId then
    throw .emptyNetworkId
  checkProviders [] b.nodes
  checkEdges (b.nodes.map (·.id)) b.edges

/-- The graph of the network, without the checks. -/
def freeze (b : GraphBuilder) : TrustGraph where
  networkId := b.networkId
  topology := b.topology
  version := b.version
  metadata := b.metadata
  nodes := .ofList (b.nodes.map fun node => (node.id, node))
  trust := .ofList b.edges

/-- Checks the network and freezes it into a graph. -/
def build (b : GraphBuilder) : Except GraphError TrustGraph :=
  match b.check with
  | .error fault => .error fault.toError
  | .ok () => .ok b.freeze

end GraphBuilder

end Federation
