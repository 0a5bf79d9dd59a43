import Federation.Calendar.Date

/-!
# Instants

An instant is a date and a time of day in universal time, to the nanosecond. The last second of
any minute may be followed by a leap second, which is second 60. A clock that is ahead of
universal time by some minutes shows the instant that lies this many minutes before its reading.

No other second is followed by a leap second. A program may set up a time whose fraction runs over a
full second after one of them; that is no instant here. It would be written as a time in the second
after it, so that no text is read as it.
-/

namespace Federation

/-- A point in universal time. A fraction over a full second stands after second 59 only, as the
fraction of second 60. -/
structure Instant where
  date : Date
  /-- Minutes since midnight. -/
  minute : Nat
  second : Nat
  nanosecond : Nat
  minute_lt : minute < 1440
  second_le : second ≤ 60
  nanosecond_lt : nanosecond < 1000000000
deriving DecidableEq

namespace Instant

instance : Inhabited Instant :=
  ⟨⟨default, 0, 0, 0, by decide, by decide, by decide⟩⟩

/-- The first year in which instants can be written down. -/
def minYear : Int := -262143

/-- The last year in which instants can be written down. -/
def maxYear : Int := 262142

/-- Whether instants of a date can be written down. -/
def admits (d : Date) : Bool :=
  minYear ≤ d.year && d.year ≤ maxYear

/-- The instant at which a clock that is `ahead` minutes ahead of universal time shows the given
date and time. The clock and universal time are less than a day apart. -/
def ofClock? (date : Date) (minute second nanosecond : Nat) (ahead : Int) : Option Instant :=
  if h : second ≤ 60 ∧ nanosecond < 1000000000 then
    let m : Int := minute - ahead
    if hday : 0 ≤ m ∧ m < 1440 then
      some ⟨date, m.toNat, second, nanosecond, by omega, h.1, h.2⟩
    else if hbefore : -1440 ≤ m ∧ m < 0 then
      some ⟨date.previous, (m + 1440).toNat, second, nanosecond, by omega, h.1, h.2⟩
    else if hafter : 1440 ≤ m ∧ m < 2880 then
      some ⟨date.next, (m - 1440).toNat, second, nanosecond, by omega, h.1, h.2⟩
    else none
  else none

end Instant

end Federation
