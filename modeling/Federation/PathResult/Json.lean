import Federation.Json.Printer
import Federation.PathResult

/-!
# Path results in JSON

A path result is an object of its endpoints, its route, whether there is one, and its number of
hops, in this order.
-/

namespace Federation.PathResult

/-- A path result as a tree. -/
def toJson (r : PathResult) : Json :=
  .record [("source", .str r.source.text), ("target", .str r.target.text),
    ("path", .array (r.path.map fun id => .str id.text)), ("reachable", .bool r.reachable),
    ("hop_count", .int r.hopCount)]

end Federation.PathResult
