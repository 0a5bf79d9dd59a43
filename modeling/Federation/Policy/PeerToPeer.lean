import Federation.Graph.Adjacency
import Federation.Policy.Basic

/-!
# Peer-to-peer routing

Trust composes along chains of edges. A breadth-first search finds a shortest chain; providers at
the depth bound are not expanded, so no chain is longer than the bound. Providers are marked when
they enter the queue, and the provider that first led to them is kept as their parent.
-/

namespace Federation

/-- How a provider was reached: from which one, and over how many edges. -/
structure Visit where
  parent : Option Nat
  depth : Nat
deriving DecidableEq, Inhabited

/-- The state of a search; the front of the queue comes first. -/
structure Search where
  visits : Array (Option Visit)
  queue : List Nat
deriving DecidableEq, Inhabited

namespace Search

/-- How a position was reached, if it was. -/
def visit? (s : Search) (i : Nat) : Option Visit :=
  (s.visits[i]?).join

/-- The number of edges over which a position was reached. -/
def depth (s : Search) (i : Nat) : Nat :=
  match s.visit? i with
  | some v => v.depth
  | none => 0

/-- The position from which another was reached. -/
def parent? (s : Search) (i : Nat) : Option Nat :=
  (s.visit? i).bind (·.parent)

/-- The search that has reached its source. -/
def start (size source : Nat) : Search :=
  ⟨(Array.replicate size none).setIfInBounds source (some ⟨none, 0⟩), [source]⟩

/-- Marks and queues a successor of `current`, unless it was reached before. -/
def reach (current : Nat) (s : Search) (next : Nat) : Search :=
  if (s.visit? next).isSome then s
  else
    ⟨s.visits.setIfInBounds next (some ⟨some current, s.depth current + 1⟩), s.queue ++ [next]⟩

/-- Takes the front off the queue and reaches its successors, unless it is at the depth bound. -/
def expand (adj : Adjacency) (maxDepth : Nat) (s : Search) : Search :=
  match s.queue with
  | [] => s
  | current :: rest =>
    let s := { s with queue := rest }
    if maxDepth ≤ s.depth current then s
    else (adj.successors current).foldl (reach current) s

/-- The chain of parents that ends at a position, from its beginning. -/
def chain (s : Search) : Nat → Nat → List Nat
  | 0, i => [i]
  | fuel + 1, i =>
    match s.parent? i with
    | none => [i]
    | some p => chain s fuel p ++ [i]

/-- Expands the front of the queue until the target is there or the queue is empty. -/
def run (adj : Adjacency) (maxDepth target : Nat) : Nat → Search → Option (List Nat)
  | 0, _ => none
  | fuel + 1, s =>
    match s.queue with
    | [] => none
    | current :: _ =>
      if current = target then some (s.chain adj.size target)
      else run adj maxDepth target fuel (s.expand adj maxDepth)

end Search

/-- A shortest chain of at most `maxDepth` edges between two positions. Every position enters the
queue at most once, which bounds the steps of the search. -/
def Adjacency.shortestPath? (adj : Adjacency) (maxDepth source target : Nat) :
    Option (List Nat) :=
  Search.run adj maxDepth target adj.size (.start adj.size source)

/-- Peer-to-peer routing with a bound on the number of edges. -/
structure PeerToPeer where
  maxDepth : Nat
deriving DecidableEq, Inhabited

namespace PeerToPeer

/-- The bound on the number of edges unless another is asked for. -/
def defaultMaxDepth : Nat := 10

/-- Routing with the usual bound. -/
def standard : PeerToPeer :=
  ⟨defaultMaxDepth⟩

/-- The route between two providers. -/
def route (p : PeerToPeer) (g : TrustGraph) (source target : ProviderNode) : PathResult :=
  let adj := Adjacency.ofGraph g
  match adj.indexOf? source.id, adj.indexOf? target.id with
  | some i, some j =>
    match adj.shortestPath? p.maxDepth i j with
    | some positions => .along source.id target.id (adj.idsAt positions)
    | none => .unreachable source.id target.id
  | _, _ => .unreachable source.id target.id

/-- Every network is a peer-to-peer network. -/
def validates (g : Option TrustGraph) : Bool :=
  g.isSome

/-- The policy of peer-to-peer networks. -/
def policy (p : PeerToPeer) : Policy where
  topology := Topology.peerToPeer.name
  validates := validates
  route := p.route

end PeerToPeer

end Federation
