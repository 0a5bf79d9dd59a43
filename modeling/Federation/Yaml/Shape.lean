import Federation.Table
import Federation.Yaml.Node

/-!
# Reading values from YAML nodes

Values are read by the shape that is expected: any scalar is a text, whatever it looks like, and an
empty plain scalar is also an empty collection. Repeated nodes are read at each place, a bounded
number of times, so a short document cannot stand for an endless one. All failures are alike.
-/

namespace Federation.Yaml

/-- Reading a value among anchored nodes. The state is how many more repetitions are followed. -/
abbrev Read := ReaderT (Array Node) (StateT Nat Option)

mutual

/-- The number of marks in a node: one for a scalar or a repetition, two around a collection. -/
def Node.marks : Node → Nat
  | .scalar _ _ _ => 1
  | .again _ => 1
  | .sequence items => 2 + itemMarks items
  | .mapping entries => 2 + entryMarks entries

/-- The number of marks in the items of a sequence. -/
def itemMarks : List Node → Nat
  | [] => 0
  | item :: rest => item.marks + itemMarks rest

/-- The number of marks in the entries of a mapping. -/
def entryMarks : List (Node × Node) → Nat
  | [] => 0
  | (key, value) :: rest => key.marks + value.marks + entryMarks rest

end

/-- The number of repetitions that are followed in a document. -/
def Document.maxRepetitions (doc : Document) : Nat :=
  100 * doc.root.marks

/-- Reads a value from a document. -/
def Document.read? {α : Type} (read : Node → Read α) (doc : Document) : Option α :=
  ((read doc.root).run doc.anchored).run' doc.maxRepetitions

/-- Follows repetitions to a node that is none, with the number of those left. -/
def follow? (anchored : Array Node) : Nat → Node → Option (Node × Nat)
  | 0, .again _ => none
  | left + 1, .again anchor => do follow? anchored left (← anchored[anchor]?)
  | left, node => some (node, left)

/-- The node itself, where it is repeated. -/
def resolve (node : Node) : Read Node :=
  fun anchored left => follow? anchored left node

/-- Reads a text. -/
def readText (node : Node) : Read String := do
  match ← resolve node with
  | .scalar _ _ text => return text
  | _ => failure

/-- Whether a node is a plain scalar without text. -/
def Node.isEmpty : Node → Bool
  | .scalar _ true text => text.isEmpty
  | _ => false

/-- Reads a list. -/
def readList {α : Type} (read : Node → Read α) (node : Node) : Read (List α) := do
  match ← resolve node with
  | .sequence items => items.mapM read
  | node => if node.isEmpty then return [] else failure

/-- Reads the entry of a table. -/
def readEntry {α : Type} (read : Node → Read α) (entry : Node × Node) : Read (String × α) := do
  let key ← readText entry.1
  return (key, ← read entry.2)

/-- Reads a table; of several entries with one key the last counts. -/
def readTable {α : Type} (read : Node → Read α) (node : Node) : Read (Table String α) := do
  match ← resolve node with
  | .mapping entries => return .ofList (← entries.mapM (readEntry read))
  | node => if node.isEmpty then return {} else failure

/-- The texts that stand for the absence of a value. -/
def isNullWord (text : String) : Bool :=
  text = "~" || text = "null" || text = "Null" || text = "NULL"

/-- Reads a value that may be absent. -/
def readOption {α : Type} (read : Node → Read α) (node : Node) : Read (Option α) := do
  let node ← resolve node
  match node with
  | .scalar none true text =>
    if text.isEmpty || isNullWord text then return none else some <$> read node
  | .scalar (some tag) true text =>
    if tag ≠ .null then some <$> read node
    else if isNullWord text then return none
    else failure
  | _ => some <$> read node

/-- The members of a record by name. -/
abbrev Members := List (String × Node)

/-- Reads the members of a record, where each of its fields stands at most once. Other members may
be repeated. -/
def readMembers (fields : List String) (node : Node) : Read Members := do
  match ← resolve node with
  | .mapping entries =>
    let members ← entries.mapM (readEntry pure)
    if fields.all fun f => (members.filter (·.1 == f)).length ≤ 1 then return members
    else failure
  | _ => failure

/-- Reads a field. -/
def Members.required {α : Type} (members : Members) (field : String) (read : Node → Read α) :
    Read α := do
  match members.lookup field with
  | some node => read node
  | none => failure

/-- Reads a field that may be left out. -/
def Members.optional {α : Type} (members : Members) (field : String) (read : Node → Read α)
    (absent : α) : Read α := do
  match members.lookup field with
  | some node => read node
  | none => return absent

end Federation.Yaml
