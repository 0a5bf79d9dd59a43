/-!
# Shortest decimals

A binary floating-point number stands for all reals that round to it. Its shortest decimal is the
one of fewest digits among these reals, and of several of that length the one nearest to it; where
two are equally near, the even one.
-/

namespace Federation.Decimal

/-- A positive number `mantissa · 2 ^ exponent`, with the reals that round to it. -/
structure Binary where
  mantissa : Nat
  exponent : Int
  /-- Whether the next number below is at half the usual distance. -/
  atPower : Bool

/-- The decimal `digits · 10 ^ exponent`. -/
structure Scaled where
  digits : Nat
  exponent : Int
deriving DecidableEq, Inhabited

/-- Compares `a · 2 ^ p` with `d · 10 ^ k`. -/
def compareScaled (a : Nat) (p : Int) (d : Nat) (k : Int) : Ordering :=
  compare (a * Nat.pow 2 p.toNat * Nat.pow 10 (-k).toNat)
    (d * Nat.pow 10 k.toNat * Nat.pow 2 (-p).toNat)

namespace Binary

/-- Whether a decimal rounds to the number; the ends count if the mantissa is even. -/
def admits (b : Binary) (s : Scaled) : Bool :=
  let p := b.exponent - 2
  let low := 4 * b.mantissa - (if b.atPower then 1 else 2)
  let high := 4 * b.mantissa + 2
  match compareScaled low p s.digits s.exponent, compareScaled high p s.digits s.exponent with
  | .lt, .gt => true
  | .eq, _ => b.mantissa % 2 = 0
  | _, .eq => b.mantissa % 2 = 0
  | _, _ => false

/-- The power of ten of the first digit. -/
def magnitude (b : Binary) : Int :=
  let below := (List.range 660).takeWhile fun (i : Nat) =>
    compareScaled b.mantissa b.exponent 1 ((i : Int) - 329) != .lt
  (below.length : Int) - 330

/-- The decimal with a given last power of ten at or just below the number. -/
def floorAt (b : Binary) (k : Int) : Nat :=
  (b.mantissa * Nat.pow 2 b.exponent.toNat * Nat.pow 10 (-k).toNat) /
    (Nat.pow 10 k.toNat * Nat.pow 2 (-b.exponent).toNat)

/-- The decimal of a given number of digits that rounds to the number; of two the nearer one, or
the even one where they are equally near. -/
def ofLength? (b : Binary) (length : Nat) : Option Scaled :=
  let k := b.magnitude - length + 1
  let d := b.floorAt k
  let low : Scaled := ⟨d, k⟩
  let high : Scaled := ⟨d + 1, k⟩
  match b.admits low, b.admits high with
  | true, true =>
    match compareScaled (2 * b.mantissa) b.exponent (2 * d + 1) k with
    | .lt => some low
    | .eq => some (if d % 2 = 0 then low else high)
    | .gt => some high
  | true, false => some low
  | false, true => some high
  | false, false => none

/-- The shortest decimal that rounds to the number. One digit more than nine is a power of ten. -/
def shortest (b : Binary) : Scaled :=
  let s := ((List.range 17).findSome? fun n => b.ofLength? (n + 1)).getD ⟨0, 0⟩
  if s.digits = 10 then ⟨1, s.exponent + 1⟩ else s

end Binary

end Federation.Decimal
