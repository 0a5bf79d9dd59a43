import Federation.Json.Number
import Federation.Table
import Federation.Text.Quoted

/-!
# The shape of JSON values

Values of known shape are read from trees. Shapes are checked from left to right, and the first
fault ends the reading: a value of the wrong kind, a record with a missing, repeated or misplaced
field, or the place where the text stops being JSON. What a reader does not look into has only to
be JSON.
-/

namespace Federation.Json

/-- Why a value could not be read. -/
inductive ShapeError where
  /-- The text is no JSON. -/
  | malformed
  | wrongType (found expected : String)
  | missingField (name : String)
  | duplicateField (name : String)
  | unknownVariant (name : String) (known : List String)
  | tooShort (length : Nat) (record : String) (size : Nat)
  /-- A text that should be a date and a time is none. -/
  | unreadableDate
deriving DecidableEq, Inhabited

/-- A name as messages show it. -/
def marked (name : String) : String :=
  "`" ++ name ++ "`"

/-- The wording of an error, for those that have one. -/
def ShapeError.message? : ShapeError → Option String
  | malformed => none
  | wrongType found expected => some ("invalid type: " ++ found ++ ", expected " ++ expected)
  | missingField name => some ("missing field " ++ marked name)
  | duplicateField name => some ("duplicate field " ++ marked name)
  | unknownVariant name known =>
    some ("unknown variant " ++ marked name ++ ", expected " ++
      " or ".intercalate (known.map marked))
  | tooShort length record size =>
    some ("invalid length " ++ toString length ++ ", expected " ++ record ++ " with " ++
      toString size ++ " elements")
  | unreadableDate => none

/-- The outcome of reading a value. -/
abbrev Read (α : Type) := Except ShapeError α

/-- How messages call a value, if it can be read at all. -/
def describe? : Json → Option String
  | null => some "null"
  | bool b => some ("boolean " ++ marked (if b then "true" else "false"))
  | number spelling =>
    match (Spelling.ofString spelling).magnitude with
    | .integer n => some ("integer " ++ marked (toString n))
    | .floating f => some ("floating point " ++ marked (floatText f))
    | .outOfRange => none
  | text (some s) => some ("string " ++ Text.quoted s)
  | text none => none
  | array _ => some "sequence"
  | object _ => some "map"
  | broken => none

/-- The error for a value that is not of the expected kind. -/
def mismatch (j : Json) (expected : String) : ShapeError :=
  match j.describe? with
  | some found => .wrongType found expected
  | none => .malformed

/-- Reads a string. -/
def readText (expected : String) : Json → Read String
  | text (some s) => .ok s
  | j => .error (j.mismatch expected)

/-- Reads a string where any string will do. -/
def readString : Json → Read String :=
  readText "a string"

/-- Passes over a value. -/
def skip (j : Json) : Read Unit :=
  if j.isWhole then .ok () else .error .malformed

/-- Reads the name of a member. -/
def readName : Option String → Read String
  | some name => .ok name
  | none => .error .malformed

/-- Reads the members of an object; of several with one name the last counts. -/
def readTable {α : Type} (readItem : Json → Read α) : Json → Read (Table String α)
  | object members =>
    members.foldlM (fun t m => do return t.insert (← readName m.1) (← readItem m.2)) {}
  | j => .error (j.mismatch "a map")

/-- Reads the items of an array. -/
def readList {α : Type} (readItem : Json → Read α) : Json → Read (List α)
  | array items => items.mapM readItem
  | j => .error (j.mismatch "a sequence")

/-- Reads a value that may be `null`. -/
def readOption {α : Type} (readItem : Json → Read α) : Json → Read (Option α)
  | null => .ok none
  | j => some <$> readItem j

/-- Reads a field of an object that was not read before. -/
def readField {α : Type} (name : String) (earlier : Option α) (readItem : Json → Read α)
    (j : Json) : Read (Option α) :=
  match earlier with
  | some _ => .error (.duplicateField name)
  | none => some <$> readItem j

/-- The value of a field that an object must have. -/
def required {α : Type} (name : String) : Option α → Read α
  | some x => .ok x
  | none => .error (.missingField name)

/-- How a record is spelt out: its name in messages and its number of fields. -/
structure RecordShape where
  name : String
  size : Nat

/-- Reads the next field of a record that is given as an array. -/
def takeItem {α : Type} (shape : RecordShape) (index : Nat) (readItem : Json → Read α) :
    List Json → Read (α × List Json)
  | [] => .error (.tooShort index ("struct " ++ shape.name) shape.size)
  | j :: rest => do return (← readItem j, rest)

/-- Reads the next field of a record that is given as an array, or takes its default if the array
ends before it. -/
def takeItemD {α : Type} (default : α) (readItem : Json → Read α) :
    List Json → Read (α × List Json)
  | [] => .ok (default, [])
  | j :: rest => do return (← readItem j, rest)

/-- Ends the reading of a record that is given as an array. -/
def endItems : List Json → Read Unit
  | [] => .ok ()
  | _ :: _ => .error .malformed

/-- Reads a record that is given by its members or by its fields in order. -/
def readRecord {α : Type} (shape : RecordShape)
    (ofMembers : List (Option String × Json) → Read α) (ofItems : List Json → Read α) :
    Json → Read α
  | object members => ofMembers members
  | array items => ofItems items
  | j => .error (j.mismatch ("struct " ++ shape.name))

/-- Reads a whole text. -/
def readWhole {α : Type} (readItem : Json → Read α) (s : String) : Read α :=
  let (j, complete) := read s
  match readItem j with
  | .error e => .error e
  | .ok x => if complete then .ok x else .error .malformed

end Federation.Json
