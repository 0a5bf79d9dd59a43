import Federation.Provider

/-!
# Path results

The answer to a trust query names its endpoints and, when the target can be reached, the route
from the source to the target. The route from a provider to itself is that provider alone.
-/

namespace Federation

/-- The outcome of a trust query. -/
structure PathResult where
  source : ProviderId
  target : ProviderId
  /-- The route in order of travel; empty when the target is not reachable. -/
  path : List ProviderId
  reachable : Bool
deriving DecidableEq, Inhabited

namespace PathResult

/-- There is no route. -/
def unreachable (source target : ProviderId) : PathResult :=
  ⟨source, target, [], false⟩

/-- There is a route along `path`. -/
def along (source target : ProviderId) (path : List ProviderId) : PathResult :=
  ⟨source, target, path, true⟩

/-- A provider is routed to itself without a hop. -/
def trivial (id : ProviderId) : PathResult :=
  along id id [id]

/-- The result for a route, between its own ends; an empty list is no route. -/
def found? : List ProviderId → Option PathResult
  | [] => none
  | id :: rest => some (along id ((id :: rest).getLast (by simp)) (id :: rest))

/-- A reachable result runs from source to target, an unreachable one has no route. -/
def WellFormed (r : PathResult) : Prop :=
  (r.reachable = true → r.path.head? = some r.source ∧ r.path.getLast? = some r.target) ∧
    (r.reachable = false → r.path = [])

instance (r : PathResult) : Decidable r.WellFormed :=
  inferInstanceAs (Decidable (_ ∧ _))

/-- The number of trust edges on the route. -/
def hops? (r : PathResult) : Option Nat :=
  if r.reachable then some (r.path.length - 1) else none

/-- The number of trust edges on the route, and `-1` when there is none. -/
def hopCount (r : PathResult) : Int :=
  match r.hops? with
  | some hops => hops
  | none => -1

end PathResult

end Federation
