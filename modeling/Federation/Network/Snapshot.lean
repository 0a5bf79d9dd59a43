import Federation.Network.Report

/-!
# Snapshots

A snapshot set holds the current graph of each network under the network's own name. Reloading a
network makes a new set; queries that hold an earlier set see what it held.
-/

namespace Federation

/-- The graphs of networks by network name. -/
structure SnapshotSet where
  graphs : Table String TrustGraph := {}
deriving DecidableEq, Inhabited

namespace SnapshotSet

/-- The set without networks. -/
def empty : SnapshotSet :=
  {}

/-- The graph of a network. -/
def graph? (s : SnapshotSet) (networkId : String) : Option TrustGraph :=
  s.graphs.get? networkId

/-- The set with a graph added, in place of an earlier one of the same network. -/
def withGraph (s : SnapshotSet) (g : TrustGraph) : SnapshotSet :=
  ⟨s.graphs.insert g.networkId g⟩

/-- Adds a graph whose network is not in the set. -/
def addNew (s : SnapshotSet) (g : TrustGraph) : Except NetworkError SnapshotSet :=
  if (s.graph? g.networkId).isSome then .error (.duplicate g.networkId)
  else .ok (s.withGraph g)

/-- The set of graphs of distinct networks. -/
def ofGraphs (gs : List TrustGraph) : Except NetworkError SnapshotSet :=
  gs.foldlM addNew empty

/-- The set of the networks in files. All files are loaded before networks are compared. -/
def load (files : Files) (paths : List String) : Except NetworkError SnapshotSet := do
  ofGraphs (← paths.mapM (TrustGraph.load files))

/-- The names of the networks, ascending. A table lists its keys in this order, so that they need
not be sorted. -/
def networkIds (s : SnapshotSet) : List String :=
  s.graphs.keys

def size (s : SnapshotSet) : Nat :=
  s.graphs.size

def isEmpty (s : SnapshotSet) : Bool :=
  s.graphs.isEmpty

end SnapshotSet

end Federation
