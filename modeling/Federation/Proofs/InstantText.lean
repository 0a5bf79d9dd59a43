import Federation.Calendar.Text
import Mathlib.Algebra.Ring.Nat

/-!
# Instants read back

Numbers are written in enough digits that nothing is lost and read up to where their digits end. An
instant that can be written down reads back as it was, with its fraction and with a leap second,
whatever mark of universal time it was written with.
-/

namespace Federation.Instant

open Federation.Text

/-! ### Digits -/

theorem value_digits (width n : Nat) : value (digits width n) = n := by
  have hvalue : value (digits width n) = Nat.ofDigitChars 10 (digits width n) 0 :=
    Nat.ofDigitChars_eq_foldl.symm
  rw [hvalue, digits, Nat.ofDigitChars_append, Nat.ofDigitChars_replicate_zero, Nat.mul_zero,
    Nat.ofDigitChars_ten_toDigits]

theorem isDigit_of_mem_digits {width n : Nat} {c : Char} (h : c ∈ digits width n) :
    c.isDigit = true := by
  rcases List.mem_append.1 h with h | h
  · rw [List.eq_of_mem_replicate h]
    rfl
  · exact Nat.isDigit_of_mem_toDigits (by decide) (by decide) h

theorem digits_ne_nil (width n : Nat) : digits width n ≠ [] :=
  List.append_ne_nil_of_right_ne_nil _ Nat.toDigits_ne_nil

theorem length_digits {width n : Nat} (hwidth : 0 < width) (h : n < 10 ^ width) :
    (digits width n).length = width := by
  have hle : (Nat.toDigits 10 n).length ≤ width :=
    (Nat.length_toDigits_le_iff (by decide) hwidth).2 h
  rw [digits, List.length_append, List.length_replicate]
  omega

/-- A text that does not go on with a digit. -/
def EndsDigits (s : List Char) : Prop :=
  ∀ c ∈ s.head?, c.isDigit = false

theorem endsDigits_cons {c : Char} (h : c.isDigit = false) (s : List Char) :
    EndsDigits (c :: s) := by
  rintro d hd
  obtain rfl := Option.some.inj hd
  exact h

/-- Digits are taken up to the width, or to where they end. -/
theorem takeDigits?_append (width : Nat) {ds : List Char} (rest : List Char)
    (hdigit : ∀ c ∈ ds, c.isDigit = true) (hne : ds ≠ []) (hle : ds.length ≤ width)
    (hend : ds.length = width ∨ EndsDigits rest) :
    takeDigits? width (ds ++ rest) = some (ds, rest) := by
  have hrest : (rest.take (width - ds.length)).takeWhile Char.isDigit = [] := by
    rcases hend with hwidth | hend
    · rw [hwidth, Nat.sub_self, List.take_zero]
      rfl
    · cases rest with
      | nil => rw [List.take_nil]; rfl
      | cons c rest =>
        cases width - ds.length with
        | zero => rfl
        | succ n =>
          rw [List.take_succ_cons, List.takeWhile_cons_of_neg]
          rw [hend c rfl]
          exact Bool.false_ne_true
  have htake : ((ds ++ rest).take width).takeWhile Char.isDigit = ds := by
    rw [List.take_append, List.take_of_length_le hle, List.takeWhile_append_of_pos hdigit, hrest,
      List.append_nil]
  have hempty : ds.isEmpty = false := by
    rw [List.isEmpty_eq_false_iff]
    exact hne
  simp only [takeDigits?, htake, hempty, Bool.false_eq_true, if_false, List.drop_left]

theorem takeDigits?_digits (width : Nat) {count n : Nat} (rest : List Char)
    (hle : (digits count n).length ≤ width)
    (hend : (digits count n).length = width ∨ EndsDigits rest) :
    takeDigits? width (digits count n ++ rest) = some (digits count n, rest) :=
  takeDigits?_append width rest (fun _ hc => isDigit_of_mem_digits hc) (digits_ne_nil count n) hle
    hend

theorem isSpace_of_isDigit {c : Char} (h : c.isDigit = true) : isSpace c = false := by
  have hrange : 48 ≤ c.toNat ∧ c.toNat ≤ 57 := Char.isDigit_iff_toNat.1 h
  simp only [isSpace, Bool.or_eq_false_iff, Bool.and_eq_false_iff, decide_eq_false_iff_not,
    beq_eq_false_iff_ne]
  omega

/-- White space is passed over, and there is none before a digit. -/
theorem trimStart_digits (width n : Nat) (rest : List Char) :
    trimStart (digits width n ++ rest) = digits width n ++ rest := by
  obtain ⟨c, ds, hdigits⟩ := List.exists_cons_of_ne_nil (digits_ne_nil width n)
  have hc : isSpace c = false :=
    isSpace_of_isDigit (isDigit_of_mem_digits (hdigits ▸ List.mem_cons_self))
  rw [hdigits, List.cons_append, trimStart_cons hc]

theorem number?_digits {n : Nat} (h : n < 100) (rest : List Char) :
    number? 2 (digits 2 n ++ rest) = some (n, rest) := by
  have hlength : (digits 2 n).length = 2 := length_digits (by decide) h
  have htake := takeDigits?_digits 2 rest (Nat.le_of_eq hlength) (Or.inl hlength)
  simp only [number?, trimStart_digits, htake, Option.map_some, value_digits]

theorem mark?_cons {c : Char} (h : isSpace c = false) (rest : List Char) :
    mark? c (c :: rest) = some rest := by
  rw [mark?, trimStart_cons h]
  exact if_pos rfl

/-! ### Years and fractions -/

/-- The digits of a year behind its sign. -/
theorem takeDigits?_year (n : Nat) (rest : List Char) :
    takeDigits? (digits 4 n ++ '-' :: rest).length (digits 4 n ++ '-' :: rest) =
      some (digits 4 n, '-' :: rest) := by
  apply takeDigits?_digits
  · rw [List.length_append]
    omega
  · exact Or.inr (endsDigits_cons rfl rest)

theorem year?_unsigned {n : Nat} (h : n ≤ 9999) (rest : List Char) :
    year? (digits 4 n ++ '-' :: rest) = some ((n : Int), '-' :: rest) := by
  have hlength : (digits 4 n).length = 4 := length_digits (by decide) (by omega)
  have htake := takeDigits?_digits 4 ('-' :: rest) (Nat.le_of_eq hlength) (Or.inl hlength)
  obtain ⟨c, ds, hdigits⟩ := List.exists_cons_of_ne_nil (digits_ne_nil 4 n)
  have hc : c.isDigit = true := isDigit_of_mem_digits (hdigits ▸ List.mem_cons_self)
  rw [year?, trimStart_digits]
  split
  · rename_i heq
    rw [hdigits] at heq
    obtain rfl : c = '-' := (List.cons.inj heq).1
    cases hc
  · rename_i heq
    rw [hdigits] at heq
    obtain rfl : c = '+' := (List.cons.inj heq).1
    cases hc
  · simp only [htake, Option.map_some, value_digits]

/-- A year is read up to the mark behind it. -/
theorem year?_yearText (year : Int) (rest : List Char) :
    year? (yearText year ++ '-' :: rest) = some (year, '-' :: rest) := by
  unfold yearText
  split
  · rename_i h
    rw [year?_unsigned (by omega), Int.toNat_of_nonneg h.1]
  · split
    · rename_i hneg
      rw [List.cons_append, year?, trimStart_cons rfl]
      simp only [takeDigits?_year, Option.map_some, value_digits, Option.some.injEq,
        Prod.mk.injEq, and_true]
      omega
    · rename_i hrange hneg
      rw [List.cons_append, year?, trimStart_cons rfl]
      simp only [takeDigits?_year, Option.map_some, value_digits, Option.some.injEq,
        Prod.mk.injEq, and_true]
      omega

theorem fraction?_digits {width n : Nat} (hpos : 0 < width) (hwidth : width ≤ 9)
    (h : n < 10 ^ width) {rest : List Char} (hrest : EndsDigits rest) :
    fraction? ('.' :: digits width n ++ rest) = some (n * 10 ^ (9 - width), rest) := by
  have hlength : (digits width n).length = width := length_digits hpos h
  have htake : takeDigits? (digits width n ++ rest).length (digits width n ++ rest) =
      some (digits width n, rest) := by
    apply takeDigits?_digits
    · rw [List.length_append]
      omega
    · exact Or.inr hrest
  have hnine : (digits width n).take 9 = digits width n :=
    List.take_of_length_le (by omega)
  rw [List.cons_append, fraction?, htake, Option.map_some]
  simp only [hnine, value_digits, hlength]
  rfl

theorem fraction?_fractionText {n : Nat} (h : n < 1000000000) {rest : List Char}
    (hrest : EndsDigits rest) (hpoint : rest.head? ≠ some '.') :
    fraction? (fractionText n ++ rest) = some (n, rest) := by
  have hpad : ∀ width unit : Nat, 0 < width → width ≤ 9 → 10 ^ (9 - width) = unit →
      n / unit < 10 ^ width → n % unit = 0 →
      fraction? ('.' :: digits width (n / unit) ++ rest) = some (n, rest) := by
    intro width unit hpos hwidth hunit hlt hmod
    rw [fraction?_digits hpos hwidth hlt hrest, hunit, Nat.div_mul_cancel (Nat.dvd_of_mod_eq_zero hmod)]
  unfold fractionText
  split
  · rename_i hzero
    cases rest with
    | nil => rw [hzero]; rfl
    | cons c rest =>
      have hc : c ≠ '.' := fun hc => hpoint (congrArg some hc)
      rw [List.nil_append, hzero, fraction?]
      rintro s heq
      exact hc (List.cons.inj heq).1
  · split
    · rename_i hmod
      exact hpad 3 1000000 (by decide) (by decide) rfl (by omega) hmod
    · split
      · rename_i hmod
        exact hpad 6 1000 (by decide) (by decide) rfl (by omega) hmod
      · have hnine := hpad 9 1 (by decide) (by decide) rfl (by omega) (Nat.mod_one n)
        rwa [Nat.div_one] at hnine

/-! ### Instants -/

/-- The marks of universal time that instants are written with. -/
def IsUniversal (mark : String) : Prop :=
  mark = "Z" ∨ mark = "+00:00"

theorem zone?_of_isUniversal {mark : String} (h : IsUniversal mark) :
    zone? mark.toList = some (0, []) := by
  rcases h with rfl | rfl <;> rfl

theorem endsDigits_of_isUniversal {mark : String} (h : IsUniversal mark) :
    EndsDigits mark.toList ∧ mark.toList.head? ≠ some '.' := by
  rcases h with rfl | rfl
  · exact ⟨endsDigits_cons rfl _, by decide⟩
  · exact ⟨endsDigits_cons rfl _, by decide⟩

theorem ofFields?_eq (d : Date) : Date.ofFields? d.year d.month d.day = some d :=
  dif_pos ⟨d.month_mem, d.day_mem⟩

theorem ofClock?_universal (t : Instant) :
    ofClock? t.date t.minute t.second t.nanosecond 0 = some t := by
  have hday : (0 : Int) ≤ t.minute - 0 ∧ (t.minute : Int) - 0 < 1440 := by
    have hlt := t.minute_lt
    omega
  rw [ofClock?, dif_pos ⟨t.second_le, t.nanosecond_lt⟩]
  simp only [hday, and_self, dite_true]
  rfl

theorem daysInMonth_le (year : Int) (month : Nat) : daysInMonth year month ≤ 31 := by
  unfold daysInMonth
  split
  · split <;> decide
  · split <;> decide

theorem toList_write (mark : String) (t : Instant) : (t.write mark).toList =
    yearText t.date.year ++ '-' :: (digits 2 t.date.month ++ '-' :: (digits 2 t.date.day ++
      'T' :: (digits 2 (t.minute / 60) ++ ':' :: (digits 2 (t.minute % 60) ++
      ':' :: (digits 2 t.second ++ (fractionText t.nanosecond ++ mark.toList)))))) := by
  simp only [write, String.toList_ofList, List.append_assoc, List.cons_append]

/-- An instant that can be written down reads back. -/
theorem read?_write {t : Instant} (h : admits t.date = true) {mark : String}
    (hmark : IsUniversal mark) : read? (t.write mark) = some t := by
  have hmonth : ∀ rest, number? 2 (digits 2 t.date.month ++ rest) = some (t.date.month, rest) :=
    number?_digits (by have := t.date.month_mem; omega)
  have hday : ∀ rest, number? 2 (digits 2 t.date.day ++ rest) = some (t.date.day, rest) := by
    have hle := daysInMonth_le t.date.year t.date.month
    exact number?_digits (by have := t.date.day_mem; omega)
  have hhour : ∀ rest, number? 2 (digits 2 (t.minute / 60) ++ rest) = some (t.minute / 60, rest) :=
    number?_digits (by have := t.minute_lt; omega)
  have hminute : ∀ rest,
      number? 2 (digits 2 (t.minute % 60) ++ rest) = some (t.minute % 60, rest) :=
    number?_digits (by omega)
  have hsecond : ∀ rest, number? 2 (digits 2 t.second ++ rest) = some (t.second, rest) :=
    number?_digits (by have := t.second_le; omega)
  obtain ⟨hend, hpoint⟩ := endsDigits_of_isUniversal hmark
  have hfraction := fraction?_fractionText t.nanosecond_lt hend hpoint
  have hdivider : ∀ rest, divider? ('T' :: rest) = some rest := fun _ => rfl
  have hclock : 60 * (t.minute / 60) + t.minute % 60 = t.minute := Nat.div_add_mod _ _
  have hhours : ¬ 24 ≤ t.minute / 60 := by
    have hlt := t.minute_lt
    omega
  have hminutes : ¬ 60 ≤ t.minute % 60 := by omega
  have hdash : isSpace '-' = false := rfl
  have hcolon : isSpace ':' = false := rfl
  rw [read?, toList_write]
  refine Option.bind_eq_some_iff.2 ⟨_, year?_yearText _ _, ?_⟩
  refine Option.bind_eq_some_iff.2 ⟨_, mark?_cons hdash _, ?_⟩
  refine Option.bind_eq_some_iff.2 ⟨_, hmonth _, ?_⟩
  refine Option.bind_eq_some_iff.2 ⟨_, mark?_cons hdash _, ?_⟩
  refine Option.bind_eq_some_iff.2 ⟨_, hday _, ?_⟩
  refine Option.bind_eq_some_iff.2 ⟨_, hdivider _, ?_⟩
  refine Option.bind_eq_some_iff.2 ⟨_, hhour _, ?_⟩
  refine Option.bind_eq_some_iff.2 ⟨_, mark?_cons hcolon _, ?_⟩
  refine Option.bind_eq_some_iff.2 ⟨_, hminute _, ?_⟩
  refine Option.bind_eq_some_iff.2 ⟨_, mark?_cons hcolon _, ?_⟩
  refine Option.bind_eq_some_iff.2 ⟨_, hsecond _, ?_⟩
  refine Option.bind_eq_some_iff.2 ⟨_, hfraction, ?_⟩
  refine Option.bind_eq_some_iff.2 ⟨_, zone?_of_isUniversal hmark, ?_⟩
  -- nothing is left to read: what remains is what is asked of the numbers
  simp only [List.all_nil, Bool.not_true, Bool.false_eq_true, if_false, ofFields?_eq, hclock, h,
    hhours, hminutes, decide_false, Bool.or_self, ofClock?_universal, Option.bind_eq_bind,
    Option.bind_some, if_true]

theorem exists_of_bind {α β : Type} {o : Option α} {f : α → Option β} {b : β}
    (h : o >>= f = some b) : ∃ a, f a = some b := by
  obtain ⟨a, -, ha⟩ := Option.bind_eq_some_iff.1 h
  exact ⟨a, ha⟩

/-- Whatever a text denotes can be written down. -/
theorem admits_of_read? {s : String} {t : Instant} (h : read? s = some t) :
    admits t.date = true := by
  -- the parts of the text do not matter, since the instant is checked after all of them
  obtain ⟨⟨year, _⟩, h⟩ := exists_of_bind h
  obtain ⟨_, h⟩ := exists_of_bind h
  obtain ⟨⟨month, _⟩, h⟩ := exists_of_bind h
  obtain ⟨_, h⟩ := exists_of_bind h
  obtain ⟨⟨day, _⟩, h⟩ := exists_of_bind h
  obtain ⟨_, h⟩ := exists_of_bind h
  obtain ⟨⟨hour, _⟩, h⟩ := exists_of_bind h
  obtain ⟨_, h⟩ := exists_of_bind h
  obtain ⟨⟨minute, _⟩, h⟩ := exists_of_bind h
  obtain ⟨_, h⟩ := exists_of_bind h
  obtain ⟨⟨second, _⟩, h⟩ := exists_of_bind h
  obtain ⟨⟨nanosecond, _⟩, h⟩ := exists_of_bind h
  obtain ⟨⟨ahead, rest⟩, h⟩ := exists_of_bind h
  dsimp only at h
  split at h
  · cases h
  · obtain ⟨date, h⟩ := exists_of_bind h
    split at h
    · cases h
    · obtain ⟨u, h⟩ := exists_of_bind h
      split at h
      · rename_i hadmits
        obtain rfl := Option.some.inj h
        exact hadmits
      · cases h

/-- Some text denotes the instant. -/
def Readable (t : Instant) : Prop :=
  ∃ s, read? s = some t

/-- The reader can produce an instant exactly if it can be written down. -/
theorem readable_iff {t : Instant} : t.Readable ↔ admits t.date = true := by
  constructor
  · rintro ⟨s, hs⟩
    exact admits_of_read? hs
  · exact fun h => ⟨t.write "Z", read?_write h (Or.inl rfl)⟩

end Federation.Instant
