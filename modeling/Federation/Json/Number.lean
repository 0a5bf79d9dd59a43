import Federation.Decimal.Shortest
import Federation.Json.Reader

/-!
# Numbers in JSON

A spelling without fraction and exponent is an integer if it fits into 64 bits; every other
spelling is a floating-point number, also `-0`. Its value is the number of its leading digits,
multiplied or divided by a power of ten, where both steps round. Numbers beyond the floating-point
range are no numbers.
-/

namespace Federation.Json

/-- What a spelling denotes. -/
inductive Magnitude where
  | integer (value : Int)
  | floating (value : Float)
  | outOfRange

/-- The parts of a spelling. -/
structure Spelling where
  negative : Bool
  whole : List Char
  /-- Digits after the point, if there is one. -/
  fraction : Option (List Char)
  /-- The value after the letter `e`, if there is one. -/
  exponent : Option Int

def digitValue (c : Char) : Nat :=
  c.toNat - '0'.toNat

def digitsValue (ds : List Char) : Nat :=
  ds.foldl (fun n c => 10 * n + digitValue c) 0

/-- The parts of a spelling that the reader accepted. -/
def Spelling.ofString (s : String) : Spelling :=
  let chars := s.toList
  let negative := chars.head? = some '-'
  let chars := if negative then chars.tail else chars
  let (whole, rest) := spanDigits chars
  let (fraction, rest) := match rest with
    | '.' :: rest => let (ds, rest) := spanDigits rest; (some ds, rest)
    | rest => (none, rest)
  let exponent := match rest with
    | [] => none
    | _ :: rest =>
      let (sign, ds) := exponentSign rest
      some (if sign = ['-'] then -(digitsValue ds : Int) else (digitsValue ds : Int))
  ⟨negative, whole, fraction, exponent⟩

/-- The greatest number of 64 bits. -/
def wordMax : Nat :=
  0xFFFFFFFFFFFFFFFF

/-- The number of the sign bit of 64 bits. -/
def signBit : Nat :=
  0x8000000000000000

/-- One more than the greatest number that the fraction bits of 64 bits can hold. -/
def mantissaSize : Nat :=
  0x10000000000000

/-- Appends digits to a number as long as it fits into 64 bits; what is left over follows. -/
def appendDigits (n : Nat) : List Char → Nat × List Char
  | [] => (n, [])
  | c :: rest =>
    let n' := 10 * n + digitValue c
    if wordMax < n' then (n, c :: rest) else appendDigits n' rest

/-- The number of leading digits and the power of ten they are multiplied by. -/
def Spelling.scaled (s : Spelling) : Nat × Int :=
  let (n, wholeLeft) := appendDigits 0 s.whole
  let ds := s.fraction.getD []
  let (n, fractionLeft) := appendDigits n ds
  let power := (wholeLeft.length : Int) - ((ds.length : Int) - fractionLeft.length)
  (n, power + s.exponent.getD 0)

/-- A number times a power of ten; dividing goes in steps of the greatest power there is. -/
def scaleFloat : Nat → Float → Int → Option Float
  | 0, _, _ => some 0
  | fuel + 1, f, e =>
    if e.natAbs ≤ 308 then
      if 0 ≤ e then
        let g := f * Float.ofScientific 1 false e.toNat
        if g.isInf then none else some g
      else some (f / Float.ofScientific 1 false e.natAbs)
    else if f == 0 then some f
    else if 0 ≤ e then none
    else scaleFloat fuel (f / Float.ofScientific 1 false 308) (e + 308)

/-- What a spelling denotes. -/
def Spelling.magnitude (s : Spelling) : Magnitude :=
  let whole := digitsValue s.whole
  if s.fraction.isNone && s.exponent.isNone && !s.negative && whole ≤ wordMax then
    .integer whole
  else if s.fraction.isNone && s.exponent.isNone && s.negative && 0 < whole && whole ≤ signBit then
    .integer (-(whole : Int))
  else
    let (n, power) := s.scaled
    match scaleFloat 5 n.toUInt64.toFloat power with
    | none => .outOfRange
    | some f => .floating (if s.negative then -f else f)

/-- An exponent, which always has a sign. -/
def exponentText (e : Int) : List Char :=
  'e' :: (if 0 ≤ e then '+' else '-') :: Nat.toDigits 10 e.natAbs

/-- A decimal, positionally where its point is close to its digits and else with an exponent. -/
def decimalText (d : Decimal.Scaled) : List Char :=
  let ds := Nat.toDigits 10 d.digits
  let point : Int := ds.length + d.exponent
  if 0 ≤ d.exponent ∧ point ≤ 16 then
    ds ++ List.replicate d.exponent.toNat '0' ++ ['.', '0']
  else if 0 < point ∧ point ≤ 16 then
    ds.take point.toNat ++ '.' :: ds.drop point.toNat
  else if -5 < point ∧ point ≤ 0 then
    '0' :: '.' :: List.replicate (-point).toNat '0' ++ ds
  else
    match ds with
    | [d] => d :: exponentText (point - 1)
    | d :: rest => d :: '.' :: rest ++ exponentText (point - 1)
    | [] => []

/-- A finite floating-point number by its shortest decimal. -/
def floatText (f : Float) : String :=
  let bits := f.toBits.toNat
  let sign := if signBit ≤ bits then ['-'] else []
  let biased : Nat := bits / mantissaSize % 0x800
  let mantissa : Nat := bits % mantissaSize
  if biased = 0 ∧ mantissa = 0 then String.ofList (sign ++ ['0', '.', '0'])
  else
    let b : Decimal.Binary :=
      if biased = 0 then ⟨mantissa, -1074, false⟩
      else ⟨mantissa + mantissaSize, (biased : Int) - 1075, mantissa == 0 && biased != 1⟩
    String.ofList (sign ++ decimalText b.shortest)

end Federation.Json
