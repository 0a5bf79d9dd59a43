/-!
# Texts that resemble other values

Readers of YAML take some plain texts for null, truth values or numbers. A text that resembles one
of these is written between quotes. Integers have at most 128 bits; floating-point numbers are
those that do not round to infinity. Digits with a leading zero are left to the text, but look so
much like a number that they are quoted as well.
-/

namespace Federation.Yaml

/-- The spellings of null. -/
def nullWords : List String := ["null", "Null", "NULL", "~"]

/-- The spellings of truth values. -/
def truthWords : List String := ["true", "True", "TRUE", "false", "False", "FALSE"]

/-- The text after a plus sign, if it has one. -/
def dropPlus (s : List Char) : List Char :=
  match s with
  | '+' :: rest => rest
  | _ => s

/-- The text after a sign, if it has one. -/
def dropSign (s : List Char) : List Char :=
  match s with
  | c :: rest => if c = '+' ∨ c = '-' then rest else s
  | [] => []

/-- The value of a digit or a letter as a digit. -/
def digitIn? (radix : Nat) (c : Char) : Option Nat :=
  let d :=
    if '0' ≤ c ∧ c ≤ '9' then c.toNat - '0'.toNat
    else if 'a' ≤ c ∧ c ≤ 'z' then c.toNat - 'a'.toNat + 10
    else if 'A' ≤ c ∧ c ≤ 'Z' then c.toNat - 'A'.toNat + 10
    else radix
  if d < radix then some d else none

/-- The number that digits denote; there has to be one. -/
def digits? (radix : Nat) (s : List Char) : Option Nat :=
  if s.isEmpty then none
  else s.foldlM (fun n c => (digitIn? radix c).map (radix * n + ·)) 0

/-- Whether digits denote a number up to a greatest one. -/
def isNumberUpTo (greatest radix : Nat) (s : List Char) : Bool :=
  match digits? radix s with
  | some n => n ≤ greatest
  | none => false

/-- Whether a text, apart from a sign, is a zero and further digits. -/
def hasLeadingZero (s : List Char) : Bool :=
  match dropSign s with
  | '0' :: c :: rest => (c :: rest).all Char.isDigit
  | _ => false

/-- Whether a text without its sign is an integer up to a greatest one. -/
def isUnsigned (greatest : Nat) (s : List Char) : Bool :=
  match s with
  | '0' :: 'x' :: rest => isNumberUpTo greatest 16 rest
  | '0' :: 'o' :: rest => isNumberUpTo greatest 8 rest
  | '0' :: 'b' :: rest => isNumberUpTo greatest 2 rest
  | _ => !hasLeadingZero s && isNumberUpTo greatest 10 s

/-- Whether a text is an integer of at most 128 bits. -/
def isInteger (s : List Char) : Bool :=
  match s with
  | '-' :: rest => isUnsigned (Nat.pow 2 127) rest
  | _ => isUnsigned (Nat.pow 2 128 - 1) (dropPlus s)

/-- The least number that rounds to infinity. -/
def infinityThreshold : Nat :=
  Nat.pow 2 1024 - Nat.pow 2 970

/-- Whether `n · 10 ^ e` does not round to infinity; numbers far away are told by their size. -/
def isFinite (n : Nat) (e : Int) : Bool :=
  let size := (Nat.toDigits 10 n).length
  if n = 0 ∨ size + e < 0 then true
  else if 310 < size + e then false
  else n * Nat.pow 10 e.toNat < infinityThreshold * Nat.pow 10 (-e).toNat

/-- The value of an exponent: a sign, if any, and digits. -/
def exponent? (s : List Char) : Option Int :=
  match s with
  | '-' :: rest => (digits? 10 rest).map (-·)
  | _ => (digits? 10 (dropPlus s)).map (·)

/-- Whether a text without its sign is a floating-point number in decimal notation. -/
def isDecimal (s : List Char) : Bool :=
  let whole := s.takeWhile Char.isDigit
  let rest := s.dropWhile Char.isDigit
  let (fraction, rest) := match rest with
    | '.' :: rest => (rest.takeWhile Char.isDigit, rest.dropWhile Char.isDigit)
    | _ => ([], rest)
  match digits? 10 (whole ++ fraction) with
  | none => false
  | some n =>
    match rest with
    | [] => isFinite n (-fraction.length)
    | c :: rest =>
      if c = 'e' ∨ c = 'E' then
        match exponent? rest with
        | some e => isFinite n (e - fraction.length)
        | none => false
      else false

/-- The spellings of infinity after its sign. -/
def infinityWords : List String := [".inf", ".Inf", ".INF"]

/-- The spellings of what is no number. -/
def notNumberWords : List String := [".nan", ".NaN", ".NAN"]

/-- Whether a text is a floating-point number. -/
def isFloating (s : List Char) : Bool :=
  notNumberWords.contains (String.ofList s) ||
  infinityWords.contains (String.ofList (dropSign s)) ||
  isDecimal (dropSign s)

/-- Whether a reader may take a plain text for something else. -/
def resemblesOther (s : String) : Bool :=
  s.isEmpty || nullWords.contains s || truthWords.contains s || hasLeadingZero s.toList ||
  isInteger s.toList || isFloating s.toList

end Federation.Yaml
