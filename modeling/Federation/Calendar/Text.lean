import Federation.Calendar.Instant
import Federation.Text.Blank

/-!
# Instants in writing

Instants are written as RFC 3339 lays down: `2024-05-01T12:00:00.500Z`. The writer always uses
universal time, leaves out a fraction of zero and gives other fractions in 3, 6 or 9 digits. Years
of other than four digits have a sign. The reader takes any offset and is more lenient: numbers
need no leading zeros, white space may stand before them, and `UTC` is a name for no offset.
-/

namespace Federation.Instant

open Federation.Text

/-- A number in decimal digits, with zeros in front up to a width. -/
def digits (width n : Nat) : List Char :=
  let ds := Nat.toDigits 10 n
  List.replicate (width - ds.length) '0' ++ ds

/-- A year; outside 0 to 9999 it has a sign. -/
def yearText (year : Int) : List Char :=
  if 0 ≤ year ∧ year ≤ 9999 then digits 4 year.toNat
  else if year < 0 then '-' :: digits 4 (-year).toNat
  else '+' :: digits 4 year.toNat

/-- A fraction of a second, in as many groups of three digits as it needs. -/
def fractionText (nanosecond : Nat) : List Char :=
  if nanosecond = 0 then []
  else if nanosecond % 1000000 = 0 then '.' :: digits 3 (nanosecond / 1000000)
  else if nanosecond % 1000 = 0 then '.' :: digits 6 (nanosecond / 1000)
  else '.' :: digits 9 nanosecond

/-- The instant in writing, with the given mark of universal time at its end. -/
def write (mark : String) (t : Instant) : String :=
  String.ofList <|
    yearText t.date.year ++ '-' :: digits 2 t.date.month ++ '-' :: digits 2 t.date.day ++
    'T' :: digits 2 (t.minute / 60) ++ ':' :: digits 2 (t.minute % 60) ++
    ':' :: digits 2 t.second ++ fractionText t.nanosecond ++ mark.toList

/-- The value of decimal digits. -/
def value (ds : List Char) : Nat :=
  ds.foldl (fun n c => 10 * n + (c.toNat - '0'.toNat)) 0

/-- The digits that a text begins with, at least one and at most `width`. -/
def takeDigits? (width : Nat) (s : List Char) : Option (List Char × List Char) :=
  let ds := (s.take width).takeWhile Char.isDigit
  if ds.isEmpty then none else some (ds, s.drop ds.length)

/-- A number of at most `width` digits, after white space. -/
def number? (width : Nat) (s : List Char) : Option (Nat × List Char) :=
  (takeDigits? width (trimStart s)).map fun (ds, rest) => (value ds, rest)

/-- A year: up to four digits, or a sign and any number of digits. -/
def year? (s : List Char) : Option (Int × List Char) :=
  match trimStart s with
  | '-' :: rest =>
    (takeDigits? rest.length rest).map fun (ds, rest) => (-(value ds : Int), rest)
  | '+' :: rest => (takeDigits? rest.length rest).map fun (ds, rest) => ((value ds : Int), rest)
  | s => (takeDigits? 4 s).map fun (ds, rest) => ((value ds : Int), rest)

/-- A mark, after white space. -/
def mark? (c : Char) (s : List Char) : Option (List Char) :=
  match trimStart s with
  | c' :: rest => if c' = c then some rest else none
  | [] => none

/-- What divides date and time: the letter `T`, or a space. -/
def divider? : List Char → Option (List Char)
  | [] => none
  | c :: rest => if c = 'T' ∨ c = 't' ∨ c = ' ' then some rest else none

/-- A fraction of a second in nanoseconds, if there is one; further digits are dropped. -/
def fraction? : List Char → Option (Nat × List Char)
  | '.' :: rest =>
    (takeDigits? rest.length rest).map fun (ds, rest) =>
      let nine := ds.take 9
      (value nine * Nat.pow 10 (9 - nine.length), rest)
  | s => some (0, s)

/-- Two digits. -/
def twoDigits? : List Char → Option (Nat × List Char)
  | a :: b :: rest => if a.isDigit && b.isDigit then some (value [a, b], rest) else none
  | _ => none

/-- Hours and minutes of an offset, less than a day, as a number of minutes. -/
def offset? (s : List Char) : Option (Nat × List Char) := do
  let (hours, s) ← twoDigits? s
  let (minutes, s) ← twoDigits? (s.dropWhile fun c => c = ':' || isSpace c)
  if hours < 24 ∧ minutes < 60 then some (60 * hours + minutes, s) else none

/-- Whether a text begins with the name `UTC` in any case. -/
def namesUniversal (s : List Char) : Bool :=
  (s.take 3).map Char.toUpper = ['U', 'T', 'C']

/-- The minutes by which the clock is ahead of universal time, after white space. -/
def zone? (s : List Char) : Option (Int × List Char) :=
  let s := trimStart s
  if namesUniversal s then some (0, s.drop 3)
  else
    match s with
    | c :: rest =>
      if c = 'Z' ∨ c = 'z' then some (0, rest)
      else if c = '+' then (offset? rest).map fun (n, rest) => ((n : Int), rest)
      else if c = '-' ∨ c = '−' then (offset? rest).map fun (n, rest) => (-(n : Int), rest)
      else none
    | [] => none

/-- The instant that a text denotes. -/
def read? (s : String) : Option Instant := do
  let (year, s) ← year? s.toList
  let s ← mark? '-' s
  let (month, s) ← number? 2 s
  let s ← mark? '-' s
  let (day, s) ← number? 2 s
  let s ← divider? s
  let (hour, s) ← number? 2 s
  let s ← mark? ':' s
  let (minute, s) ← number? 2 s
  let s ← mark? ':' s
  let (second, s) ← number? 2 s
  let (nanosecond, s) ← fraction? s
  let (ahead, s) ← zone? s
  if !s.all isSpace then none
  let date ← Date.ofFields? year month day
  if !admits date || 24 ≤ hour || 60 ≤ minute then none
  let t ← ofClock? date (60 * hour + minute) second nanosecond ahead
  if admits t.date then some t else none

end Federation.Instant
