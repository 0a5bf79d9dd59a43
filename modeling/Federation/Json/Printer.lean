import Federation.Json.Basic

/-!
# Writing JSON

Two layouts: compact, and one line for each item with two spaces of indentation for each level.
Strings escape quotes, backslashes and control characters, and leave all other characters alone.
What cannot be read is written as `null`.
-/

namespace Federation.Json

/-- A control character as `\u` and four lowercase hexadecimal digits. -/
def controlEscape (c : Char) : List Char :=
  let ds := Nat.toDigits 16 c.toNat
  ['\\', 'u'] ++ List.replicate (4 - ds.length) '0' ++ ds

/-- A character inside a string. -/
def escape (c : Char) : List Char :=
  if c = '\x22' then ['\\', '\x22']
  else if c = '\\' then ['\\', '\\']
  else if c = '\x08' then ['\\', 'b']
  else if c = '\x0c' then ['\\', 'f']
  else if c = '\n' then ['\\', 'n']
  else if c = '\r' then ['\\', 'r']
  else if c = '\t' then ['\\', 't']
  else if c.toNat < 0x20 then controlEscape c
  else [c]

/-- A string between quotes. -/
def quote (s : List Char) : List Char :=
  '\x22' :: s.flatMap escape ++ ['\x22']

/-- The literal that stands for a tree without parts. -/
def atom : Json → List Char
  | bool true => "true".toList
  | bool false => "false".toList
  | number spelling => spelling.toList
  | text (some s) => quote s.toList
  | _ => "null".toList

mutual

/-- The compact layout. -/
def compactChars : Json → List Char
  | array items => '[' :: compactItems items ++ [']']
  | object members => '{' :: compactMembers members ++ ['}']
  | j => atom j

/-- Items with commas between them. -/
def compactItems : List Json → List Char
  | [] => []
  | [j] => compactChars j
  | j :: rest => compactChars j ++ ',' :: compactItems rest

/-- Members with commas between them. -/
def compactMembers : List (Option String × Json) → List Char
  | [] => []
  | [(k, j)] => atom (text k) ++ ':' :: compactChars j
  | (k, j) :: rest => atom (text k) ++ ':' :: compactChars j ++ ',' :: compactMembers rest

end

/-- A new line at a level. -/
def newLine (level : Nat) : List Char :=
  '\n' :: List.replicate (2 * level) ' '

mutual

/-- The layout in lines, from the given level on. -/
def prettyChars (level : Nat) : Json → List Char
  | array [] => ['[', ']']
  | array items => '[' :: prettyItems (level + 1) items ++ newLine level ++ [']']
  | object [] => ['{', '}']
  | object members => '{' :: prettyMembers (level + 1) members ++ newLine level ++ ['}']
  | j => atom j

/-- Items on lines of their own. -/
def prettyItems (level : Nat) : List Json → List Char
  | [] => []
  | [j] => newLine level ++ prettyChars level j
  | j :: rest => newLine level ++ prettyChars level j ++ ',' :: prettyItems level rest

/-- Members on lines of their own. -/
def prettyMembers (level : Nat) : List (Option String × Json) → List Char
  | [] => []
  | [(k, j)] => newLine level ++ atom (text k) ++ [':', ' '] ++ prettyChars level j
  | (k, j) :: rest =>
    newLine level ++ atom (text k) ++ [':', ' '] ++ prettyChars level j ++
      ',' :: prettyMembers level rest

end

/-- The text of a tree in the compact layout. -/
def compact (j : Json) : String :=
  String.ofList j.compactChars

/-- The text of a tree in lines. -/
def pretty (j : Json) : String :=
  String.ofList (j.prettyChars 0)

end Federation.Json
