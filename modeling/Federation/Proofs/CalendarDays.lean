import Federation.Calendar.Instant
import Mathlib.Order.Monotone.Basic

/-!
# Days and minutes in one count

The days of the calendar are numbered without a gap across the ends of months, of years and of
leap years, and so are the minutes of universal time. A clock that is ahead of universal time shows
the instant whose minute has the number of the clock's minute less those that it is ahead.
-/

namespace Federation

/-! ### Days -/

/-- The number of days in the years before a year, counted from year 1. -/
def daysBeforeYear (year : Int) : Int :=
  365 * (year - 1) + (year - 1) / 4 - (year - 1) / 100 + (year - 1) / 400

/-- The number of days in the first months of a year. -/
def daysThrough (year : Int) : Nat → Nat
  | 0 => 0
  | month + 1 => daysThrough year month + daysInMonth year (month + 1)

/-- A year is as long as its months together. -/
theorem daysBeforeYear_succ (year : Int) :
    daysBeforeYear (year + 1) = daysBeforeYear year + daysThrough year 12 := by
  have hmonths : daysThrough year 12 = if isLeapYear year then 366 else 365 := by
    cases h : isLeapYear year <;> simp [daysThrough, daysInMonth, h]
  rw [hmonths]
  unfold daysBeforeYear isLeapYear
  simp only [Bool.and_eq_true, Bool.or_eq_true, beq_iff_eq, bne_iff_ne]
  split <;> omega

theorem daysThrough_mono (year : Int) : Monotone (daysThrough year) :=
  monotone_nat_of_le_succ fun _ => Nat.le_add_right _ _

theorem daysBeforeYear_le {year year' : Int} (h : year ≤ year') :
    daysBeforeYear year ≤ daysBeforeYear year' := by
  unfold daysBeforeYear
  rcases Int.le_iff_lt_or_eq.1 h with hlt | rfl
  · omega
  · exact Int.le_refl _

namespace Date

/-- The number of a day, counted from the first day of year 1. -/
def dayNumber (d : Date) : Int :=
  daysBeforeYear d.year + daysThrough d.year (d.month - 1) + d.day

theorem daysThrough_month (d : Date) :
    daysThrough d.year d.month =
      daysThrough d.year (d.month - 1) + daysInMonth d.year d.month := by
  obtain ⟨year, month, day, ⟨hpos, hle⟩, hday⟩ := d
  obtain ⟨m, rfl⟩ : ∃ m, month = m + 1 := ⟨month - 1, by omega⟩
  rfl

theorem dayNumber_next (d : Date) : d.next.dayNumber = d.dayNumber + 1 := by
  have hmonth := d.daysThrough_month
  have hrange := d.month_mem
  have hday := d.day_mem
  unfold next
  split
  · simp only [dayNumber]
    omega
  · rename_i hend
    split
    · simp only [dayNumber, first, Nat.add_sub_cancel]
      omega
    · -- the last day of a year
      have hlast : d.month = 12 := by omega
      have hyear := daysBeforeYear_succ d.year
      have hfirst : daysThrough (d.year + 1) (1 - 1) = 0 := rfl
      rw [hlast] at hmonth hday hend
      simp only [dayNumber, first, hfirst, hlast]
      omega

theorem dayNumber_previous (d : Date) : d.previous.dayNumber = d.dayNumber - 1 := by
  have hrange := d.month_mem
  have hday := d.day_mem
  unfold previous
  split
  · simp only [dayNumber]
    omega
  · split
    · have hmonth := (last d.year (d.month - 1) ⟨by omega, by omega⟩).daysThrough_month
      simp only [last] at hmonth
      simp only [dayNumber, last]
      omega
    · -- the first day of a year
      have hone : d.month = 1 := by omega
      have hyear := daysBeforeYear_succ (d.year - 1)
      rw [Int.sub_add_cancel] at hyear
      have hfirst : daysThrough d.year (1 - 1) = 0 := rfl
      have hmonth := (last (d.year - 1) 12 (by decide)).daysThrough_month
      simp only [last] at hmonth
      simp only [dayNumber, last, hone, hfirst]
      omega

/-- A day lies inside its month, and its month inside its year. -/
theorem day_le_daysThrough (d : Date) {month : Nat} (h : d.month ≤ month) :
    daysThrough d.year (d.month - 1) + d.day ≤ daysThrough d.year month := by
  have hle := daysThrough_mono d.year h
  have hmonth := d.daysThrough_month
  have hday := d.day_mem
  omega

/-- Days are numbered in the order of their years, of their months and of themselves. -/
theorem dayNumber_lt {d d' : Date} (h : d.year < d'.year ∨ d.year = d'.year ∧
    (d.month < d'.month ∨ d.month = d'.month ∧ d.day < d'.day)) : d.dayNumber < d'.dayNumber := by
  have hday := d'.day_mem
  unfold dayNumber
  rcases h with hyear | ⟨hyear, hmonth | ⟨hmonth, hlt⟩⟩
  · have hmono := daysBeforeYear_le (Int.add_one_le_of_lt hyear)
    have hinside := d.day_le_daysThrough d.month_mem.2
    rw [daysBeforeYear_succ] at hmono
    omega
  · have hinside := d.day_le_daysThrough (Nat.le_sub_one_of_lt hmonth)
    rw [hyear] at hinside ⊢
    omega
  · rw [hyear, hmonth]
    omega

/-- Different days have different numbers. -/
theorem dayNumber_injective {d d' : Date} (h : d.dayNumber = d'.dayNumber) : d = d' := by
  have hnot : ¬ d.dayNumber < d'.dayNumber := by omega
  have hnot' : ¬ d'.dayNumber < d.dayNumber := by omega
  have hyear : d.year = d'.year := by
    rcases Int.lt_trichotomy d.year d'.year with hlt | heq | hlt
    · exact absurd (dayNumber_lt (Or.inl hlt)) hnot
    · exact heq
    · exact absurd (dayNumber_lt (Or.inl hlt)) hnot'
  have hmonth : d.month = d'.month := by
    rcases Nat.lt_trichotomy d.month d'.month with hlt | heq | hlt
    · exact absurd (dayNumber_lt (Or.inr ⟨hyear, Or.inl hlt⟩)) hnot
    · exact heq
    · exact absurd (dayNumber_lt (Or.inr ⟨hyear.symm, Or.inl hlt⟩)) hnot'
  have hday : d.day = d'.day := by
    rcases Nat.lt_trichotomy d.day d'.day with hlt | heq | hlt
    · exact absurd (dayNumber_lt (Or.inr ⟨hyear, Or.inr ⟨hmonth, hlt⟩⟩)) hnot
    · exact heq
    · exact absurd (dayNumber_lt (Or.inr ⟨hyear.symm, Or.inr ⟨hmonth.symm, hlt⟩⟩)) hnot'
  cases d
  cases d'
  simp_all

end Date

/-! ### Minutes -/

namespace Instant

/-- The number of a minute of universal time, counted from midnight of the day before year 1. -/
def minuteNumber (t : Instant) : Int :=
  1440 * t.date.dayNumber + t.minute

/-- An instant is known by the number of its minute, its second and the part of the second. -/
theorem eq_of_minuteNumber {t t' : Instant} (hminute : t.minuteNumber = t'.minuteNumber)
    (hsecond : t.second = t'.second) (hnanosecond : t.nanosecond = t'.nanosecond) : t = t' := by
  have hlt := t.minute_lt
  have hlt' := t'.minute_lt
  unfold minuteNumber at hminute
  have hdate : t.date = t'.date := Date.dayNumber_injective (by omega)
  have hofday : t.minute = t'.minute := by
    rw [hdate] at hminute
    omega
  cases t
  cases t'
  simp_all

variable {date : Date} {minute second nanosecond : Nat} {ahead : Int} {t : Instant}

theorem of_ofClock? (h : ofClock? date minute second nanosecond ahead = some t) :
    t.minuteNumber = 1440 * date.dayNumber + minute - ahead ∧ t.second = second ∧
      t.nanosecond = nanosecond := by
  unfold ofClock? at h
  split at h
  · dsimp only at h
    split at h
    · obtain rfl := Option.some.inj h
      simp only [minuteNumber, and_self, and_true]
      omega
    · split at h
      · obtain rfl := Option.some.inj h
        simp only [minuteNumber, Date.dayNumber_previous, and_self, and_true]
        omega
      · split at h
        · obtain rfl := Option.some.inj h
          simp only [minuteNumber, Date.dayNumber_next, and_self, and_true]
          omega
        · cases h
  · cases h

/-- A clock always shows some instant. -/
theorem exists_ofClock? (date : Date) (hminute : minute < 1440)
    (hahead : -1440 < ahead ∧ ahead < 1440) (hsecond : second ≤ 60)
    (hnanosecond : nanosecond < 1000000000) :
    ∃ t, ofClock? date minute second nanosecond ahead = some t := by
  unfold ofClock?
  rw [dif_pos ⟨hsecond, hnanosecond⟩]
  dsimp only
  split
  · exact ⟨_, rfl⟩
  · split
    · exact ⟨_, rfl⟩
    · rw [dif_pos (by omega)]
      exact ⟨_, rfl⟩

/-- The instant that a clock shows lies as many minutes before its reading as the clock is ahead,
across the ends of days, months and years. Its second is that of the clock, also if it is a leap
second. -/
theorem ofClock?_eq_some_iff (hminute : minute < 1440) (hahead : -1440 < ahead ∧ ahead < 1440) :
    ofClock? date minute second nanosecond ahead = some t ↔
      t.minuteNumber = 1440 * date.dayNumber + minute - ahead ∧ t.second = second ∧
        t.nanosecond = nanosecond := by
  refine ⟨of_ofClock?, ?_⟩
  rintro ⟨hnumber, rfl, rfl⟩
  obtain ⟨u, hu⟩ := exists_ofClock? date hminute hahead t.second_le t.nanosecond_lt
  obtain ⟨hnumber', hsecond', hnanosecond'⟩ := of_ofClock? hu
  rw [hu, eq_of_minuteNumber (hnumber'.trans hnumber.symm) hsecond' hnanosecond']

end Instant

end Federation
