/-!
# JSON trees

A tree stands for as much of a JSON text as can be read. Where the text stops being JSON the tree
has the leaf `broken`, and nothing after it. A reader that walks the tree from left to right thus
meets the faults of a text in the order in which the text has them.
-/

namespace Federation

/-- A JSON text, up to its first fault. -/
inductive Json where
  | null
  | bool (value : Bool)
  /-- A number, as it is spelt. -/
  | number (spelling : String)
  /-- A string; absent if it escapes a surrogate that has no partner. -/
  | text (value : Option String)
  | array (items : List Json)
  /-- Members with their names in order. A name is absent if it escapes a surrogate that has no
  partner, or if the text has its fault there. -/
  | object (members : List (Option String × Json))
  /-- The place of the first fault. -/
  | broken
deriving Inhabited

namespace Json

/-- A string. -/
def str (s : String) : Json :=
  text (some s)

/-- A whole number. -/
def int (n : Int) : Json :=
  number (toString n)

/-- An object with the given members. -/
def record (members : List (String × Json)) : Json :=
  object (members.map fun m => (some m.1, m.2))

mutual

/-- Whether a tree has no fault; strings need not be readable for that. -/
def isWhole : Json → Bool
  | array items => allWhole items
  | object members => membersWhole members
  | broken => false
  | _ => true

/-- Whether all trees of a list have no fault. -/
def allWhole : List Json → Bool
  | [] => true
  | j :: rest => isWhole j && allWhole rest

/-- Whether all members of an object have no fault; names need not be readable for that. -/
def membersWhole : List (Option String × Json) → Bool
  | [] => true
  | (_, j) :: rest => isWhole j && membersWhole rest

end

end Json

end Federation
