import Federation.Graph.Adjacency

/-!
# Cycles of trust

A depth-first walk from every provider in turn finds a directed cycle if the graph has one. The
walk keeps the path from its root on a stack; an edge back onto the stack closes a cycle. Cycles
are allowed in a network, so finding one is information and no error.
-/

namespace Federation

/-- How far the walk is with a provider. -/
inductive Mark where
  | unvisited
  | onStack
  | done
deriving DecidableEq, Inhabited

/-- A provider on the stack and those of its successors that are still to be looked at. -/
structure Frame where
  position : Nat
  pending : List Nat
deriving DecidableEq, Inhabited

/-- The state of the walk; the top of the stack comes first. -/
structure Walk where
  marks : Array Mark
  stack : List Frame
deriving DecidableEq, Inhabited

namespace Walk

def mark (w : Walk) (i : Nat) : Mark :=
  (w.marks[i]?).getD .done

/-- Puts a provider on the stack. -/
def push (w : Walk) (adj : Adjacency) (i : Nat) : Walk :=
  ⟨w.marks.setIfInBounds i .onStack, ⟨i, adj.successors i⟩ :: w.stack⟩

/-- The cycle that the edge from the top of the stack to `i` on the stack closes: the path from
where `i` stands on it, and `i` again. A position that is not on the stack would count as its
bottom. -/
def closeCycle (stack : List Frame) (i : Nat) : List Nat :=
  let path := (stack.map (·.position)).reverse
  let start := (path.findIdx? (· = i)).getD 0
  path.drop start ++ [i]

/-- Looks at one more successor of the top of the stack, or takes the top off when there is none;
the result is a closed cycle or the walk that goes on. -/
def step (adj : Adjacency) (w : Walk) : List Nat ⊕ Walk :=
  match w.stack with
  | [] => .inr w
  | ⟨i, []⟩ :: below => .inr ⟨w.marks.setIfInBounds i .done, below⟩
  | ⟨i, next :: pending⟩ :: below =>
    let stack := ⟨i, pending⟩ :: below
    match w.mark next with
    | .unvisited => .inr (push ⟨w.marks, stack⟩ adj next)
    | .onStack => .inl (closeCycle stack next)
    | .done => .inr ⟨w.marks, stack⟩

/-- Walks until the stack is empty or a cycle is closed. -/
def run (adj : Adjacency) : Nat → Walk → List Nat ⊕ Walk
  | 0, w => .inr w
  | fuel + 1, w =>
    if w.stack.isEmpty then .inr w
    else
      match step adj w with
      | .inl cycle => .inl cycle
      | .inr w' => run adj fuel w'

/-- Steps enough for a walk from one root: each looks at an edge or finishes a provider. -/
def fuel (adj : Adjacency) : Nat :=
  adj.edgeCount + adj.size + 1

/-- Walks from each of the roots that no earlier walk has visited. -/
def fromRoots (adj : Adjacency) : List Nat → Walk → Option (List Nat)
  | [], _ => none
  | root :: roots, w =>
    if w.mark root = .unvisited then
      match run adj (fuel adj) (w.push adj root) with
      | .inl cycle => some cycle
      | .inr w' => fromRoots adj roots w'
    else fromRoots adj roots w

/-- The walk before any provider is visited. -/
def start (adj : Adjacency) : Walk :=
  ⟨Array.replicate adj.size .unvisited, []⟩

end Walk

/-- A directed cycle of positions, which starts and ends at the same one. -/
def Adjacency.findCycle (adj : Adjacency) : Option (List Nat) :=
  Walk.fromRoots adj (List.range adj.size) (Walk.start adj)

/-- A directed cycle of trust, such as `[a, b, a]`, or `[a, a]` for a provider that trusts
itself. -/
def TrustGraph.findCycle (g : TrustGraph) : Option (List ProviderId) :=
  let adj := Adjacency.ofGraph g
  adj.findCycle.map adj.idsAt

end Federation
