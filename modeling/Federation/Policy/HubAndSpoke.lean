import Federation.Policy.Basic

/-!
# Hub-and-spoke routing

Direct trust always suffices. Otherwise one hub may stand between two providers that are no hubs
themselves, and trust must point from the source to the hub and from the hub to the target. Of
several such hubs the one with the least identifier is taken.
-/

namespace Federation.HubAndSpoke

/-- The first hub that the source trusts and that trusts the target. -/
def bridgingHub? (g : TrustGraph) (source target : ProviderId) : Option ProviderNode :=
  g.hubs.find? fun hub => g.hasEdge source hub.id && g.hasEdge hub.id target

/-- The route between two providers. -/
def route (g : TrustGraph) (source target : ProviderNode) : PathResult :=
  if g.hasEdge source.id target.id then
    .along source.id target.id [source.id, target.id]
  else if source.role.isHub || target.role.isHub then
    .unreachable source.id target.id
  else
    match bridgingHub? g source.id target.id with
    | some hub => .along source.id target.id [source.id, hub.id, target.id]
    | none => .unreachable source.id target.id

/-- A hub-and-spoke network has a hub. -/
def validates : Option TrustGraph → Bool
  | some g => !g.hubs.isEmpty
  | none => false

/-- The policy of hub-and-spoke networks. -/
def policy : Policy where
  topology := Topology.hubAndSpoke.name
  validates := validates
  route := route

end Federation.HubAndSpoke
