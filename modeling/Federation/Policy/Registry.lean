import Federation.Policy.HubAndSpoke
import Federation.Policy.PeerToPeer
import Federation.Text.Quoted

/-!
# Policy registries

A registry holds one policy for each topology name. Registering a policy replaces an earlier one
of the same name and touches no other.
-/

namespace Federation

/-- The policies by the name of the topology they serve. -/
structure PolicyRegistry where
  policies : Table String Policy

namespace PolicyRegistry

/-- The registry without policies. -/
def empty : PolicyRegistry :=
  ⟨{}⟩

/-- Registers a policy under the name of its topology. -/
def register (r : PolicyRegistry) (p : Policy) : PolicyRegistry :=
  ⟨r.policies.insert p.topology p⟩

/-- The policy for a topology name. -/
def get? (r : PolicyRegistry) (topology : String) : Option Policy :=
  r.policies.get? topology

/-- The policy for the topology that a graph names. -/
def forGraph? (r : PolicyRegistry) (g : TrustGraph) : Option Policy :=
  r.get? g.topology.name

/-- The registered names, ascending. A table lists its keys in this order, so that they need not be
sorted. -/
def topologies (r : PolicyRegistry) : List String :=
  r.policies.keys

/-- The registry of both built-in topologies. -/
def standard : PolicyRegistry :=
  (empty.register HubAndSpoke.policy).register PeerToPeer.standard.policy

/-- The registry as it is shown in diagnostics. -/
def describe (r : PolicyRegistry) : String :=
  "PolicyRegistry \x7b topology_types: [" ++
    ", ".intercalate (r.topologies.map Text.quoted) ++ "] \x7d"

end PolicyRegistry

end Federation
