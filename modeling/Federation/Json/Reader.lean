import Federation.Json.Basic

/-!
# Reading JSON

The reader turns a text into a tree and the text that follows it. At a fault it leaves `broken` in
the tree and no text to go on with. Numbers are only spelt out here, and their size does not
matter; strings may hold any escapes of four hexadecimal digits.
-/

namespace Federation.Json

/-- The characters that may stand between the parts of a text. -/
def isGap (c : Char) : Bool :=
  c = ' ' || c = '\n' || c = '\t' || c = '\r'

/-- The text after the gap at its beginning. -/
def skipGap (s : List Char) : List Char :=
  s.dropWhile isGap

/-- The value of a hexadecimal digit. -/
def hexDigit? (c : Char) : Option Nat :=
  if '0' ≤ c ∧ c ≤ '9' then some (c.toNat - '0'.toNat)
  else if 'a' ≤ c ∧ c ≤ 'f' then some (c.toNat - 'a'.toNat + 10)
  else if 'A' ≤ c ∧ c ≤ 'F' then some (c.toNat - 'A'.toNat + 10)
  else none

/-- The number that four hexadecimal digits denote. -/
def hexUnit? (a b c d : Char) : Option Nat := do
  let a ← hexDigit? a
  let b ← hexDigit? b
  let c ← hexDigit? c
  let d ← hexDigit? d
  some (((a * 16 + b) * 16 + c) * 16 + d)

/-- The character that a letter after a backslash stands for. -/
def simpleEscape? (c : Char) : Option Char :=
  if c = '\x22' then some '\x22'
  else if c = '\\' then some '\\'
  else if c = '/' then some '/'
  else if c = 'b' then some '\x08'
  else if c = 'f' then some '\x0c'
  else if c = 'n' then some '\n'
  else if c = 'r' then some '\r'
  else if c = 't' then some '\t'
  else none

/-- The units that the characters of a string stand for, up to its closing quote: code points, and
surrogates as they are escaped. -/
def stringUnits? : List Char → Option (List Nat × List Char)
  | [] => none
  | '\\' :: 'u' :: a :: b :: c :: d :: rest =>
    match hexUnit? a b c d, stringUnits? rest with
    | some n, some (units, rest) => some (n :: units, rest)
    | _, _ => none
  | '\\' :: c :: rest =>
    match simpleEscape? c, stringUnits? rest with
    | some c, some (units, rest) => some (c.toNat :: units, rest)
    | _, _ => none
  | c :: rest =>
    if c = '\x22' then some ([], rest)
    else if c.toNat < 0x20 ∨ c = '\\' then none
    else
      match stringUnits? rest with
      | some (units, rest) => some (c.toNat :: units, rest)
      | none => none

def isHighSurrogate (n : Nat) : Bool :=
  0xD800 ≤ n && n < 0xDC00

def isLowSurrogate (n : Nat) : Bool :=
  0xDC00 ≤ n && n < 0xE000

/-- The characters of units in which every surrogate has its partner. -/
def unitsText? : List Nat → Option (List Char)
  | [] => some []
  | [n] => if isHighSurrogate n || isLowSurrogate n then none else some [Char.ofNat n]
  | n :: m :: rest =>
    if isHighSurrogate n then
      if isLowSurrogate m then
        (unitsText? rest).map
          (Char.ofNat (0x10000 + (n - 0xD800) * 0x400 + (m - 0xDC00)) :: ·)
      else none
    else if isLowSurrogate n then none
    else (unitsText? (m :: rest)).map (Char.ofNat n :: ·)

/-- A string after its opening quote, and the text that follows it. -/
def string? (s : List Char) : Option (Option String × List Char) :=
  (stringUnits? s).map fun (units, rest) => ((unitsText? units).map String.ofList, rest)

/-- The digits at the beginning of a text, and what follows them. -/
def spanDigits (s : List Char) : List Char × List Char :=
  (s.takeWhile Char.isDigit, s.dropWhile Char.isDigit)

/-- A whole number without a sign: `0`, or digits that do not begin with `0`. -/
def wholePart? (s : List Char) : Option (List Char × List Char) :=
  match spanDigits s with
  | ([], _) => none
  | ('0' :: _ :: _, _) => none
  | r => some r

/-- A point and digits, if there is a point. -/
def fractionPart? : List Char → Option (List Char × List Char)
  | '.' :: rest =>
    match spanDigits rest with
    | ([], _) => none
    | (ds, rest) => some ('.' :: ds, rest)
  | s => some ([], s)

/-- The sign at the beginning of an exponent. -/
def exponentSign : List Char → List Char × List Char
  | c :: rest => if c = '+' ∨ c = '-' then ([c], rest) else ([], c :: rest)
  | [] => ([], [])

/-- A letter `e`, an optional sign and digits, if there is such a letter. -/
def exponentPart? : List Char → Option (List Char × List Char)
  | c :: rest =>
    if c = 'e' ∨ c = 'E' then
      let (sign, rest) := exponentSign rest
      match spanDigits rest with
      | ([], _) => none
      | (ds, rest) => some (c :: sign ++ ds, rest)
    else some ([], c :: rest)
  | [] => some ([], [])

/-- A number and the text that follows it. -/
def number? (s : List Char) : Option (String × List Char) := do
  let (sign, s) := match s with
    | '-' :: rest => (['-'], rest)
    | s => ([], s)
  let (whole, s) ← wholePart? s
  let (fraction, s) ← fractionPart? s
  let (exponent, s) ← exponentPart? s
  some (String.ofList (sign ++ whole ++ fraction ++ exponent), s)

mutual

/-- A value and the text that follows it; no text follows a fault. -/
def readValue : Nat → List Char → Json × Option (List Char)
  | 0, _ => (broken, none)
  | fuel + 1, s =>
    match skipGap s with
    | 'n' :: 'u' :: 'l' :: 'l' :: rest => (null, some rest)
    | 't' :: 'r' :: 'u' :: 'e' :: rest => (bool true, some rest)
    | 'f' :: 'a' :: 'l' :: 's' :: 'e' :: rest => (bool false, some rest)
    | '\x22' :: rest =>
      match string? rest with
      | some (value, rest) => (text value, some rest)
      | none => (broken, none)
    | '[' :: rest =>
      match skipGap rest with
      | ']' :: rest => (array [], some rest)
      | rest =>
        let (items, rest) := readItems fuel rest
        (array items, rest)
    | '{' :: rest =>
      match skipGap rest with
      | '}' :: rest => (object [], some rest)
      | rest =>
        let (members, rest) := readMembers fuel rest
        (object members, rest)
    | s =>
      match number? s with
      | some (spelling, rest) => (number spelling, some rest)
      | none => (broken, none)

/-- The items of an array, up to its closing bracket. -/
def readItems : Nat → List Char → List Json × Option (List Char)
  | 0, _ => ([broken], none)
  | fuel + 1, s =>
    match readValue fuel s with
    | (j, none) => ([j], none)
    | (j, some rest) =>
      match skipGap rest with
      | ']' :: rest => ([j], some rest)
      | ',' :: rest =>
        let (items, rest) := readItems fuel rest
        (j :: items, rest)
      | _ => ([j, broken], none)

/-- The members of an object, up to its closing brace. Only a string can be a name. -/
def readMembers : Nat → List Char → List (Option String × Json) × Option (List Char)
  | 0, _ => ([(none, broken)], none)
  | fuel + 1, s =>
    match skipGap s with
    | '\x22' :: rest =>
      match string? rest with
      | none => ([(none, broken)], none)
      | some (name, rest) =>
        match skipGap rest with
        | ':' :: rest =>
          match readValue fuel rest with
          | (j, none) => ([(name, j)], none)
          | (j, some rest) =>
            match skipGap rest with
            | '}' :: rest => ([(name, j)], some rest)
            | ',' :: rest =>
              let (members, rest) := readMembers fuel rest
              ((name, j) :: members, rest)
            | _ => ([(name, j), (none, broken)], none)
        | _ => ([(name, broken)], none)
    | _ => ([(none, broken)], none)

end

/-- A whole text as a tree, and whether the tree is all there is in the text. Every step of the
reader takes a character, so the length of the text bounds their number. -/
def read (s : String) : Json × Bool :=
  let chars := s.toList
  match readValue (2 * chars.length + 1) chars with
  | (j, none) => (j, false)
  | (j, some rest) => (j, (skipGap rest).isEmpty)

end Federation.Json
