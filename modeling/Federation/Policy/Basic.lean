import Federation.Graph.Basic
import Federation.PathResult

/-!
# Topology policies

A policy routes trust in one kind of network. What all policies share is decided here: absent
input and unknown providers are unreachable, and a provider is always routed to itself. Only the
route between two distinct providers of the graph is left to the policy. A policy that answers
queries on its own, in place of what is decided here, is none in this sense.
-/

namespace Federation

/-- The rules of one kind of network. -/
structure Policy where
  /-- The name of the topology the policy serves. -/
  topology : String
  /-- Whether a network has the structure the policy needs; an absent one has not. -/
  validates : Option TrustGraph → Bool
  /-- The route between two distinct providers of a graph. -/
  route : TrustGraph → ProviderNode → ProviderNode → PathResult

namespace Policy

/-- The trust path between two providers of a graph, each of which may be absent. -/
def query (p : Policy) (g : Option TrustGraph) (source target : Option ProviderId) :
    PathResult :=
  match g, source, target with
  | some g, some s, some t =>
    if s = t then .trivial s
    else
      match g.node? s, g.node? t with
      | some sourceNode, some targetNode => p.route g sourceNode targetNode
      | _, _ => .unreachable s t
  | _, s, t => .unreachable (s.getD .unknown) (t.getD .unknown)

/-- The trust path between two providers of a graph. -/
def trustPath (p : Policy) (g : TrustGraph) (source target : ProviderId) : PathResult :=
  p.query (some g) (some source) (some target)

/-- The same rules for networks that name another topology. -/
def named (p : Policy) (topology : String) : Policy :=
  { p with topology := topology }

end Policy

end Federation
