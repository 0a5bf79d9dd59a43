import Federation.Graph.Basic

/-!
# Adjacency by position

Searches run over positions `0, 1, …` instead of identifiers. Position `i` belongs to the `i`-th
identifier in ascending order, and successors keep the order in which trust was declared. The
successors of all positions stand in one array, one position after another.
-/

namespace Federation

/-- The providers of a graph by position. The successors of position `i` are the entries of
`targets` from `offsets[i]` up to `offsets[i + 1]`. -/
structure Adjacency where
  ids : Array ProviderId
  /-- The position of each identifier. -/
  index : Table ProviderId Nat
  offsets : Array Nat
  targets : Array Nat
deriving DecidableEq, Inhabited

namespace Adjacency

/-- Puts the target of an edge into the group of its source; an edge is passed over when one of its
ends has no position. -/
def group (index : Table ProviderId Nat) (groups : List (List Nat)) (e : TrustEdge) :
    List (List Nat) :=
  match index.get? e.source, index.get? e.target with
  | some i, some j => groups.modify i (· ++ [j])
  | _, _ => groups

/-- Lays a group out behind those that are there. -/
def layOut (adj : Adjacency) (row : List Nat) : Adjacency :=
  let targets := adj.targets ++ row
  { adj with targets := targets, offsets := adj.offsets.push targets.size }

/-- The adjacency of a graph. -/
def ofGraph (g : TrustGraph) : Adjacency :=
  let index := Table.ofList g.ids.zipIdx
  let groups := g.edges.foldl (group index) (List.replicate g.ids.length [])
  groups.foldl layOut ⟨g.ids.toArray, index, #[0], #[]⟩

def size (adj : Adjacency) : Nat :=
  adj.ids.size

def isEmpty (adj : Adjacency) : Bool :=
  adj.ids.isEmpty

/-- The identifier at a position. -/
def id? (adj : Adjacency) (i : Nat) : Option ProviderId :=
  adj.ids[i]?

/-- The position of an identifier. -/
def indexOf? (adj : Adjacency) (id : ProviderId) : Option Nat :=
  adj.index.get? id

/-- The positions that position `i` trusts; none for a position that does not exist. -/
def successors (adj : Adjacency) (i : Nat) : List Nat :=
  if adj.size ≤ i then []
  else
    match adj.offsets[i]?, adj.offsets[i + 1]? with
    | some first, some last => (adj.targets.extract first last).toList
    | _, _ => []

/-- The identifiers at positions that exist. -/
def idsAt (adj : Adjacency) (positions : List Nat) : List ProviderId :=
  positions.filterMap adj.id?

/-- The number of successors over all positions. -/
def edgeCount (adj : Adjacency) : Nat :=
  adj.targets.size

end Adjacency

end Federation
