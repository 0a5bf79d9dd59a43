import Federation.Network.Snapshot

/-!
# The federation gate

Before a login is redirected from one provider to another, a gate is asked whether trust leads from
the current provider to the home provider of the user. A network that is not known, or whose
topology no policy serves, permits nothing.
-/

namespace Federation

/-- Where networks are looked up, and the policies they are routed by. -/
structure FederationGate where
  lookup : String → Option TrustGraph
  registry : PolicyRegistry := .standard

namespace FederationGate

/-- The gate of a snapshot set. -/
def ofSnapshots (s : SnapshotSet) (registry : PolicyRegistry) : FederationGate :=
  ⟨s.graph?, registry⟩

/-- The trust path from the current provider to the home provider in a network. -/
def check (gate : FederationGate) (networkId : String) (current home : ProviderId) :
    PathResult :=
  match gate.lookup networkId with
  | none => .unreachable current home
  | some g =>
    match gate.registry.forGraph? g with
    | none => .unreachable current home
    | some policy => policy.trustPath g current home

/-- Whether the redirect may go on. -/
def isPermitted (gate : FederationGate) (networkId : String) (current home : ProviderId) : Bool :=
  (gate.check networkId current home).reachable

end FederationGate

end Federation
