/-!
# Calendar dates

Dates of the Gregorian calendar, extended without end into the past and the future. The year
before year 1 is year 0.
-/

namespace Federation

/-- Whether a year has a 29th of February. -/
def isLeapYear (year : Int) : Bool :=
  year % 4 == 0 && (year % 100 != 0 || year % 400 == 0)

/-- The number of days of a month. -/
def daysInMonth (year : Int) (month : Nat) : Nat :=
  if month = 2 then (if isLeapYear year then 29 else 28)
  else if month = 4 ∨ month = 6 ∨ month = 9 ∨ month = 11 then 30
  else 31

theorem daysInMonth_pos (year : Int) (month : Nat) : 1 ≤ daysInMonth year month := by
  unfold daysInMonth
  split
  · split <;> omega
  · split <;> omega

/-- A day of the calendar. -/
structure Date where
  year : Int
  month : Nat
  day : Nat
  month_mem : 1 ≤ month ∧ month ≤ 12
  day_mem : 1 ≤ day ∧ day ≤ daysInMonth year month
deriving DecidableEq

namespace Date

instance : Inhabited Date :=
  ⟨⟨1970, 1, 1, by decide, by decide⟩⟩

/-- The date with these numbers, if there is one. -/
def ofFields? (year : Int) (month day : Nat) : Option Date :=
  if h : (1 ≤ month ∧ month ≤ 12) ∧ 1 ≤ day ∧ day ≤ daysInMonth year month then
    some ⟨year, month, day, h.1, h.2⟩
  else
    none

/-- The first day of a month. -/
def first (year : Int) (month : Nat) (h : 1 ≤ month ∧ month ≤ 12) : Date :=
  ⟨year, month, 1, h, Nat.le_refl 1, daysInMonth_pos year month⟩

/-- The last day of a month. -/
def last (year : Int) (month : Nat) (h : 1 ≤ month ∧ month ≤ 12) : Date :=
  ⟨year, month, daysInMonth year month, h, daysInMonth_pos year month, Nat.le_refl _⟩

/-- The day after. -/
def next (d : Date) : Date :=
  if h : d.day < daysInMonth d.year d.month then
    ⟨d.year, d.month, d.day + 1, d.month_mem, by omega, h⟩
  else if h : d.month < 12 then
    first d.year (d.month + 1) ⟨by omega, h⟩
  else
    first (d.year + 1) 1 (by decide)

/-- The day before. -/
def previous (d : Date) : Date :=
  if h : 1 < d.day then
    ⟨d.year, d.month, d.day - 1, d.month_mem, by omega, by have := d.day_mem; omega⟩
  else if h : 1 < d.month then
    last d.year (d.month - 1) ⟨by omega, by have := d.month_mem; omega⟩
  else
    last (d.year - 1) 12 (by decide)

end Date

end Federation
