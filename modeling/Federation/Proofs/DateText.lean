import Federation.Proofs.CalendarDays
import Federation.Proofs.InstantText
import Mathlib.Data.List.TakeWhile
import Mathlib.Tactic.Ring

/-!
# The grammar of dates

Which texts are spellings of which clock readings is laid down here apart from the reader: a date, a
time with an optional fraction and a zone, with white space in front of most of the parts. A text is
read exactly if it spells a reading, and then as the instant at which a clock of the zone shows it.
-/

namespace Federation.Instant

open Federation.Text

/-! ### Parts -/

/-- White space, or nothing. -/
def Blank (s : List Char) : Prop :=
  ∀ c ∈ s, isSpace c = true

/-- One digit or more that denote a number. -/
structure Numeral (n : Nat) (ds : List Char) : Prop where
  isDigit : ∀ c ∈ ds, c.isDigit = true
  ne_nil : ds ≠ []
  value_eq : value ds = n

/-- A year: up to four digits, or a sign and any number of digits. -/
inductive SpellsYear : Int → List Char → Prop where
  | unsigned {n : Nat} {gap ds : List Char} (blank : Blank gap) (numeral : Numeral n ds)
      (short : ds.length ≤ 4) : SpellsYear n (gap ++ ds)
  | positive {n : Nat} {gap ds : List Char} (blank : Blank gap) (numeral : Numeral n ds) :
      SpellsYear n (gap ++ '+' :: ds)
  | negative {n : Nat} {gap ds : List Char} (blank : Blank gap) (numeral : Numeral n ds) :
      SpellsYear (-n) (gap ++ '-' :: ds)

/-- One or two digits. -/
inductive SpellsNumber (n : Nat) : List Char → Prop where
  | digits {gap ds : List Char} (blank : Blank gap) (numeral : Numeral n ds)
      (short : ds.length ≤ 2) : SpellsNumber n (gap ++ ds)

/-- A mark between numbers. -/
inductive SpellsMark (c : Char) : List Char → Prop where
  | mark {gap : List Char} (blank : Blank gap) : SpellsMark c (gap ++ [c])

/-- What stands between date and time. -/
inductive SpellsDivider : List Char → Prop where
  | letter {c : Char} (divides : c = 'T' ∨ c = 't' ∨ c = ' ') : SpellsDivider [c]

/-- The digits after a point as a number of nanoseconds; what is less than one is dropped. -/
def nanoseconds (ds : List Char) : Nat :=
  value ds * 10 ^ 9 / 10 ^ ds.length

/-- A point and the digits of a fraction, or nothing. -/
inductive SpellsFraction : Nat → List Char → Prop where
  | absent : SpellsFraction 0 []
  | present {n : Nat} {ds : List Char} (numeral : Numeral n ds) :
      SpellsFraction (nanoseconds ds) ('.' :: ds)

/-- Hours and minutes of two digits each, with colons and white space between them or nothing. -/
inductive SpellsOffset : Nat → List Char → Prop where
  | parts {hours minutes : Nat} {a b c d : Char} {between : List Char}
      (hourDigits : Numeral hours [a, b]) (minuteDigits : Numeral minutes [c, d])
      (divided : ∀ c ∈ between, c = ':' ∨ isSpace c = true) (hours_lt : hours < 24)
      (minutes_lt : minutes < 60) :
      SpellsOffset (60 * hours + minutes) (a :: b :: (between ++ [c, d]))

/-- The minutes by which a clock is ahead of universal time. -/
inductive SpellsZone : Int → List Char → Prop where
  | named {gap : List Char} {a b c : Char} (blank : Blank gap) (u : a = 'U' ∨ a = 'u')
      (t : b = 'T' ∨ b = 't') (c' : c = 'C' ∨ c = 'c') : SpellsZone 0 (gap ++ [a, b, c])
  | letter {gap : List Char} {c : Char} (blank : Blank gap) (zulu : c = 'Z' ∨ c = 'z') :
      SpellsZone 0 (gap ++ [c])
  | ahead {n : Nat} {gap s : List Char} (blank : Blank gap) (offset : SpellsOffset n s) :
      SpellsZone n (gap ++ '+' :: s)
  | behind {n : Nat} {gap s : List Char} {c : Char} (blank : Blank gap) (minus : c = '-' ∨ c = '−')
      (offset : SpellsOffset n s) : SpellsZone (-n) (gap ++ c :: s)

/-- What a clock shows, and by how many minutes it is ahead of universal time. -/
structure ClockReading where
  date : Date
  hour : Nat
  minute : Nat
  second : Nat
  nanosecond : Nat
  ahead : Int
  hour_lt : hour < 24
  minute_lt : minute < 60
  second_le : second ≤ 60
  ahead_lt : -1440 < ahead ∧ ahead < 1440

/-- A text of one kind, and after it a text of another. -/
def Followed (P Q : List Char → Prop) (s : List Char) : Prop :=
  ∃ t rest, P t ∧ s = t ++ rest ∧ Q rest

/-- The text spells what a clock shows. -/
def ClockReading.Spelt (r : ClockReading) (s : String) : Prop :=
  (Followed (SpellsYear r.date.year) <| Followed (SpellsMark '-') <|
    Followed (SpellsNumber r.date.month) <| Followed (SpellsMark '-') <|
    Followed (SpellsNumber r.date.day) <| Followed SpellsDivider <|
    Followed (SpellsNumber r.hour) <| Followed (SpellsMark ':') <|
    Followed (SpellsNumber r.minute) <| Followed (SpellsMark ':') <|
    Followed (SpellsNumber r.second) <| Followed (SpellsFraction r.nanosecond) <|
    Followed (SpellsZone r.ahead) Blank) s.toList

/-- The minute of universal time at which the clock shows the reading: it lies before the minute
that the clock shows by as much as the clock is ahead. -/
def ClockReading.universalMinute (r : ClockReading) : Int :=
  1440 * r.date.dayNumber + (60 * r.hour + r.minute) - r.ahead

/-- The instant is the one at which the clock shows the reading. -/
structure ClockReading.At (r : ClockReading) (t : Instant) : Prop where
  minute_eq : t.minuteNumber = r.universalMinute
  second_eq : t.second = r.second
  nanosecond_eq : t.nanosecond = r.nanosecond

/-- Clocks that are ahead by different times may show the same instant. -/
structure ClockReading.SameInstant (r r' : ClockReading) : Prop where
  minute_eq : r.universalMinute = r'.universalMinute
  second_eq : r.second = r'.second
  nanosecond_eq : r.nanosecond = r'.nanosecond

theorem ClockReading.At.sameInstant_iff {r r' : ClockReading} {t t' : Instant} (h : r.At t)
    (h' : r'.At t') : r.SameInstant r' ↔ t = t' := by
  constructor
  · intro same
    exact eq_of_minuteNumber (h.minute_eq.trans (same.minute_eq.trans h'.minute_eq.symm))
      (h.second_eq.trans (same.second_eq.trans h'.second_eq.symm))
      (h.nanosecond_eq.trans (same.nanosecond_eq.trans h'.nanosecond_eq.symm))
  · rintro rfl
    exact ⟨h.minute_eq.symm.trans h'.minute_eq, h.second_eq.symm.trans h'.second_eq,
      h.nanosecond_eq.symm.trans h'.nanosecond_eq⟩

/-! ### Digits and white space -/

theorem exists_blank (s : List Char) : ∃ gap, Blank gap ∧ s = gap ++ trimStart s :=
  ⟨s.takeWhile isSpace, fun _ hc => List.mem_takeWhile_imp hc,
    List.takeWhile_append_dropWhile.symm⟩

theorem Blank.trimStart_append {gap : List Char} (h : Blank gap) (s : List Char) :
    trimStart (gap ++ s) = trimStart s :=
  List.dropWhile_append_of_pos h

theorem takeDigits?_eq_some {width : Nat} {s ds rest : List Char}
    (h : takeDigits? width s = some (ds, rest)) :
    s = ds ++ rest ∧ Numeral (value ds) ds ∧ ds.length ≤ width := by
  unfold takeDigits? at h
  dsimp only at h
  split at h
  · cases h
  · rename_i hempty
    obtain ⟨rfl, rfl⟩ := Prod.mk.inj (Option.some.inj h)
    have hprefix : (s.take width).takeWhile Char.isDigit <+: s :=
      (List.takeWhile_prefix _).trans (List.take_prefix _ _)
    refine ⟨(List.prefix_iff_eq_append.1 hprefix).symm, ⟨fun _ hc => List.mem_takeWhile_imp hc,
      fun hnil => hempty (List.isEmpty_iff.2 hnil), rfl⟩, ?_⟩
    exact (List.takeWhile_prefix _).length_le.trans (List.length_take_le _ _)

theorem Numeral.takeDigits?_append {n width : Nat} {ds rest : List Char} (h : Numeral n ds)
    (hle : ds.length ≤ width) (hrest : EndsDigits rest) :
    takeDigits? width (ds ++ rest) = some (ds, rest) :=
  Instant.takeDigits?_append width rest h.isDigit h.ne_nil hle (Or.inr hrest)

theorem Numeral.trimStart_append {n : Nat} {ds : List Char} (h : Numeral n ds) (rest : List Char) :
    trimStart (ds ++ rest) = ds ++ rest := by
  obtain ⟨c, more, rfl⟩ := List.exists_cons_of_ne_nil h.ne_nil
  rw [List.cons_append, trimStart_cons (isSpace_of_isDigit (h.isDigit c List.mem_cons_self))]

/-! ### Parts that are read -/

theorem number?_append {n : Nat} {t rest : List Char} (h : SpellsNumber n t)
    (hrest : EndsDigits rest) : number? 2 (t ++ rest) = some (n, rest) := by
  obtain ⟨blank, numeral, short⟩ := h
  rw [List.append_assoc, number?, blank.trimStart_append, numeral.trimStart_append,
    numeral.takeDigits?_append short hrest]
  exact congrArg (fun n => some (n, rest)) numeral.value_eq

theorem number?_eq_some {n : Nat} {s rest : List Char} (h : number? 2 s = some (n, rest)) :
    ∃ t, SpellsNumber n t ∧ s = t ++ rest := by
  obtain ⟨⟨ds, _⟩, htake, heq⟩ := Option.map_eq_some_iff.1 h
  obtain ⟨rfl, rfl⟩ := Prod.mk.inj heq
  obtain ⟨hs, numeral, short⟩ := takeDigits?_eq_some htake
  obtain ⟨gap, blank, hgap⟩ := exists_blank s
  exact ⟨gap ++ ds, ⟨blank, numeral, short⟩, by rw [List.append_assoc, ← hs, ← hgap]⟩

theorem year?_append {y : Int} {t rest : List Char} (h : SpellsYear y t)
    (hrest : EndsDigits rest) : year? (t ++ rest) = some (y, rest) := by
  have hlong : ∀ ds : List Char, ds.length ≤ (ds ++ rest).length := fun ds => by
    rw [List.length_append]
    omega
  cases h with
  | @unsigned n gap ds blank numeral short =>
    obtain ⟨c, more, rfl⟩ := List.exists_cons_of_ne_nil numeral.ne_nil
    have hc := numeral.isDigit c List.mem_cons_self
    rw [List.append_assoc, year?, blank.trimStart_append, numeral.trimStart_append]
    split
    · rename_i heq
      obtain rfl : c = '-' := (List.cons.inj heq).1
      cases hc
    · rename_i heq
      obtain rfl : c = '+' := (List.cons.inj heq).1
      cases hc
    · rw [numeral.takeDigits?_append short hrest]
      exact congrArg (fun n : Nat => some ((n : Int), rest)) numeral.value_eq
  | @positive n gap ds blank numeral =>
    rw [List.append_assoc, year?, blank.trimStart_append, List.cons_append, trimStart_cons rfl]
    simp only [numeral.takeDigits?_append (hlong ds) hrest, Option.map_some, numeral.value_eq]
  | @negative n gap ds blank numeral =>
    rw [List.append_assoc, year?, blank.trimStart_append, List.cons_append, trimStart_cons rfl]
    simp only [numeral.takeDigits?_append (hlong ds) hrest, Option.map_some, numeral.value_eq]

theorem year?_eq_some {y : Int} {s rest : List Char} (h : year? s = some (y, rest)) :
    ∃ t, SpellsYear y t ∧ s = t ++ rest := by
  obtain ⟨gap, blank, hgap⟩ := exists_blank s
  unfold year? at h
  split at h
  · rename_i more hsign
    obtain ⟨⟨ds, _⟩, htake, heq⟩ := Option.map_eq_some_iff.1 h
    obtain ⟨rfl, rfl⟩ := Prod.mk.inj heq
    obtain ⟨rfl, numeral, -⟩ := takeDigits?_eq_some htake
    exact ⟨_, .negative blank numeral, by
      rw [List.append_assoc, List.cons_append, ← hsign, ← hgap]⟩
  · rename_i more hsign
    obtain ⟨⟨ds, _⟩, htake, heq⟩ := Option.map_eq_some_iff.1 h
    obtain ⟨rfl, rfl⟩ := Prod.mk.inj heq
    obtain ⟨rfl, numeral, -⟩ := takeDigits?_eq_some htake
    exact ⟨_, .positive blank numeral, by
      rw [List.append_assoc, List.cons_append, ← hsign, ← hgap]⟩
  · obtain ⟨⟨ds, _⟩, htake, heq⟩ := Option.map_eq_some_iff.1 h
    obtain ⟨rfl, rfl⟩ := Prod.mk.inj heq
    obtain ⟨hs, numeral, short⟩ := takeDigits?_eq_some htake
    exact ⟨_, .unsigned blank numeral short, by rw [List.append_assoc, ← hs, ← hgap]⟩

theorem mark?_append {c : Char} (hspace : isSpace c = false) {t : List Char} (h : SpellsMark c t)
    (rest : List Char) : mark? c (t ++ rest) = some rest := by
  obtain ⟨blank⟩ := h
  rw [List.append_assoc, mark?, blank.trimStart_append, List.singleton_append,
    trimStart_cons hspace]
  exact if_pos rfl

theorem mark?_eq_some {c : Char} {s rest : List Char} (h : mark? c s = some rest) :
    ∃ t, SpellsMark c t ∧ s = t ++ rest := by
  obtain ⟨gap, blank, hgap⟩ := exists_blank s
  unfold mark? at h
  split at h
  · rename_i hc
    split at h
    · rename_i heq
      obtain rfl := heq
      obtain rfl := Option.some.inj h
      exact ⟨_, .mark blank, by rw [List.append_assoc, List.singleton_append, ← hc, ← hgap]⟩
    · cases h
  · cases h

theorem divider?_append {t : List Char} (h : SpellsDivider t) (rest : List Char) :
    divider? (t ++ rest) = some rest := by
  obtain ⟨divides⟩ := h
  exact if_pos divides

theorem divider?_eq_some {s rest : List Char} (h : divider? s = some rest) :
    ∃ t, SpellsDivider t ∧ s = t ++ rest := by
  unfold divider? at h
  split at h
  · cases h
  · split at h
    · rename_i divides
      obtain rfl := Option.some.inj h
      exact ⟨_, .letter divides, rfl⟩
    · cases h

/-! ### Fractions -/

theorem foldl_value (ds : List Char) (n : Nat) :
    ds.foldl (fun n c => 10 * n + (c.toNat - '0'.toNat)) n = n * 10 ^ ds.length + value ds := by
  unfold value
  induction ds generalizing n with
  | nil => simp
  | cons c ds ih =>
    rw [List.foldl_cons, List.foldl_cons, ih, ih (10 * 0 + _), List.length_cons, Nat.pow_succ]
    ring

theorem value_append (ds es : List Char) :
    value (ds ++ es) = value ds * 10 ^ es.length + value es := by
  rw [value, List.foldl_append, foldl_value es]
  rfl

theorem value_lt {ds : List Char} (h : ∀ c ∈ ds, c.isDigit = true) :
    value ds < 10 ^ ds.length := by
  induction ds with
  | nil => exact Nat.one_pos
  | cons c ds ih =>
    obtain ⟨hc, hds⟩ := List.forall_mem_cons.1 h
    have hrest := ih hds
    have hdigit : value [c] ≤ 9 := by
      have hrange : 48 ≤ c.toNat ∧ c.toNat ≤ 57 := Char.isDigit_iff_toNat.1 hc
      have hvalue : value [c] = 10 * 0 + (c.toNat - 48) := rfl
      omega
    have hhead := Nat.mul_le_mul_right (10 ^ ds.length) hdigit
    rw [← List.singleton_append, value_append, List.length_append, List.length_singleton,
      Nat.pow_add, Nat.pow_one]
    omega

/-- The first nine digits are nanoseconds, and the others are less than one. -/
theorem nanoseconds_eq {ds : List Char} (h : ∀ c ∈ ds, c.isDigit = true) :
    nanoseconds ds = value (ds.take 9) * 10 ^ (9 - (ds.take 9).length) := by
  unfold nanoseconds
  by_cases hlength : ds.length ≤ 9
  · have hpow : 10 ^ 9 = 10 ^ (9 - ds.length) * 10 ^ ds.length := by
      rw [← Nat.pow_add, Nat.sub_add_cancel hlength]
    rw [List.take_of_length_le hlength, hpow, ← Nat.mul_assoc,
      Nat.mul_div_cancel _ (Nat.pow_pos (by decide))]
  · have hnine : (ds.take 9).length = 9 := by
      rw [List.length_take]
      omega
    have hsplit : value ds = value (ds.take 9) * 10 ^ (ds.drop 9).length + value (ds.drop 9) := by
      rw [← value_append, List.take_append_drop]
    have hsize : ds.length = (ds.drop 9).length + 9 := by
      rw [List.length_drop]
      omega
    have hless : value (ds.drop 9) < 10 ^ (ds.drop 9).length :=
      value_lt fun c hc => h c (List.mem_of_mem_drop hc)
    rw [hsplit, hsize, Nat.pow_add, Nat.mul_div_mul_right _ _ (by decide), hnine, Nat.sub_self,
      Nat.pow_zero, Nat.mul_one, Nat.mul_comm (value (ds.take 9)),
      Nat.mul_add_div (Nat.pow_pos (by decide)), Nat.div_eq_of_lt hless, Nat.add_zero]

theorem fraction?_append {n : Nat} {t rest : List Char} (h : SpellsFraction n t)
    (hrest : EndsDigits rest) (hpoint : rest.head? ≠ some '.') :
    fraction? (t ++ rest) = some (n, rest) := by
  cases h with
  | absent =>
    rw [List.nil_append, fraction?]
    rintro more rfl
    exact hpoint rfl
  | @present n ds numeral =>
    have hlong : ds.length ≤ (ds ++ rest).length := by
      rw [List.length_append]
      omega
    rw [List.cons_append, fraction?, numeral.takeDigits?_append hlong hrest]
    exact congrArg (fun n => some (n, rest)) (nanoseconds_eq numeral.isDigit).symm

theorem fraction?_eq_some {n : Nat} {s rest : List Char} (h : fraction? s = some (n, rest)) :
    ∃ t, SpellsFraction n t ∧ s = t ++ rest := by
  unfold fraction? at h
  split at h
  · obtain ⟨⟨ds, _⟩, htake, heq⟩ := Option.map_eq_some_iff.1 h
    obtain ⟨hs, numeral, -⟩ := takeDigits?_eq_some htake
    obtain ⟨rfl, rfl⟩ := Prod.mk.inj heq
    refine ⟨'.' :: ds, ?_, by rw [List.cons_append, ← hs]⟩
    rw [Nat.pow_eq, ← nanoseconds_eq numeral.isDigit]
    exact .present numeral
  · obtain ⟨rfl, rfl⟩ := Prod.mk.inj (Option.some.inj h)
    exact ⟨[], .absent, rfl⟩

/-! ### Zones -/

theorem twoDigits?_append {n : Nat} {a b : Char} (h : Numeral n [a, b]) (rest : List Char) :
    twoDigits? (a :: b :: rest) = some (n, rest) := by
  have hdigits : (a.isDigit && b.isDigit) = true := by
    rw [h.isDigit a (by simp), h.isDigit b (by simp)]
    rfl
  rw [twoDigits?, if_pos hdigits, h.value_eq]

theorem twoDigits?_eq_some {n : Nat} {s rest : List Char} (h : twoDigits? s = some (n, rest)) :
    ∃ a b, Numeral n [a, b] ∧ s = a :: b :: rest := by
  unfold twoDigits? at h
  split at h
  · rename_i a b more
    split at h
    · rename_i hdigits
      obtain ⟨rfl, rfl⟩ := Prod.mk.inj (Option.some.inj h)
      obtain ⟨ha, hb⟩ := Bool.and_eq_true_iff.1 hdigits
      refine ⟨a, b, ⟨?_, List.cons_ne_nil _ _, rfl⟩, rfl⟩
      simp only [List.forall_mem_cons]
      exact ⟨ha, hb, List.forall_mem_nil _⟩
    · cases h
  · cases h

theorem offset?_append {n : Nat} {t : List Char} (h : SpellsOffset n t) (rest : List Char) :
    offset? (t ++ rest) = some (n, rest) := by
  obtain ⟨hourDigits, minuteDigits, divided, hours_lt, minutes_lt⟩ := h
  rename_i hours minutes a b c d between
  have hbetween : (between ++ c :: d :: rest).dropWhile (fun c => c = ':' || isSpace c) =
      c :: d :: rest := by
    have hc := minuteDigits.isDigit c List.mem_cons_self
    have hstop : (decide (c = ':') || isSpace c) = false := by
      rw [isSpace_of_isDigit hc, Bool.or_false, decide_eq_false_iff_not]
      rintro rfl
      cases hc
    rw [List.dropWhile_append_of_pos fun c hc => by simpa using divided c hc,
      List.dropWhile_cons_of_neg (by rw [hstop]; exact Bool.false_ne_true)]
  have ht : a :: b :: (between ++ [c, d]) ++ rest = a :: b :: (between ++ c :: d :: rest) := by
    simp
  rw [ht, offset?, twoDigits?_append hourDigits]
  simp only [Option.bind_eq_bind, Option.bind_some, hbetween, twoDigits?_append minuteDigits,
    hours_lt, minutes_lt, and_self, if_true]

theorem offset?_eq_some {n : Nat} {s rest : List Char} (h : offset? s = some (n, rest)) :
    ∃ t, SpellsOffset n t ∧ s = t ++ rest := by
  obtain ⟨⟨hours, after⟩, hhours, h⟩ := Option.bind_eq_some_iff.1 h
  obtain ⟨⟨minutes, left⟩, hminutes, h⟩ := Option.bind_eq_some_iff.1 h
  dsimp only at hminutes h
  split at h
  · rename_i hlt
    obtain ⟨rfl, rfl⟩ := Prod.mk.inj (Option.some.inj h)
    obtain ⟨a, b, hourDigits, rfl⟩ := twoDigits?_eq_some hhours
    obtain ⟨c, d, minuteDigits, hafter⟩ := twoDigits?_eq_some hminutes
    have hdivided : ∀ c ∈ after.takeWhile (fun c => c = ':' || isSpace c),
        c = ':' ∨ isSpace c = true :=
      fun c hc => by simpa using List.mem_takeWhile_imp hc
    refine ⟨_, .parts hourDigits minuteDigits hdivided hlt.1 hlt.2, ?_⟩
    have hsplit := List.takeWhile_append_dropWhile (p := fun c => c = ':' || isSpace c) (l := after)
    rw [hafter] at hsplit
    simpa using hsplit.symm
  · cases h

theorem eq_or_eq_of_toUpper {c upper lower : Char} (hlower : lower.toNat = upper.toNat + 32)
    (h : c.toUpper = upper) : c = upper ∨ c = lower := by
  unfold Char.toUpper at h
  split at h
  · rename_i hrange
    have hlow : 'a'.val.toNat ≤ c.val.toNat := UInt32.le_iff_toNat_le.1 hrange.1
    have hhigh : c.val.toNat ≤ 'z'.val.toNat := UInt32.le_iff_toNat_le.1 hrange.2
    have hshift : upper.val.toNat = (c.val.toNat + 4294967264) % 4294967296 := by
      rw [← h]
      exact UInt32.toNat_add _ _
    have ha : 'a'.val.toNat = 97 := rfl
    have hz : 'z'.val.toNat = 122 := rfl
    refine Or.inr (Char.toNat_inj.1 ?_)
    rw [hlower]
    change c.val.toNat = upper.val.toNat + 32
    omega
  · exact Or.inl h

theorem namesUniversal_eq_true {s : List Char} (h : namesUniversal s = true) :
    ∃ a b c rest, (a = 'U' ∨ a = 'u') ∧ (b = 'T' ∨ b = 't') ∧ (c = 'C' ∨ c = 'c') ∧
      s = a :: b :: c :: rest := by
  match s with
  | [] => cases h
  | [a] => simp [namesUniversal] at h
  | [a, b] => simp [namesUniversal] at h
  | a :: b :: c :: rest =>
    obtain ⟨ha, hbc⟩ := List.cons.inj (of_decide_eq_true h)
    obtain ⟨hb, hc⟩ := List.cons.inj hbc
    exact ⟨a, b, c, rest, eq_or_eq_of_toUpper rfl ha, eq_or_eq_of_toUpper rfl hb,
      eq_or_eq_of_toUpper rfl (List.cons.inj hc).1, rfl⟩

theorem namesUniversal_cons {c : Char} (h : c.toUpper ≠ 'U') (rest : List Char) :
    namesUniversal (c :: rest) = false :=
  decide_eq_false fun heq => h (List.cons.inj heq).1

theorem zone?_append {n : Int} {t : List Char} (h : SpellsZone n t) (rest : List Char) :
    zone? (t ++ rest) = some (n, rest) := by
  cases h with
  | named blank u t c =>
    rw [List.append_assoc, zone?, blank.trimStart_append]
    rcases u with rfl | rfl <;> rcases t with rfl | rfl <;> rcases c with rfl | rfl <;> rfl
  | letter blank zulu =>
    rw [List.append_assoc, zone?, blank.trimStart_append]
    rcases zulu with rfl | rfl <;> rfl
  | @ahead n gap s blank offset =>
    rw [List.append_assoc, zone?, blank.trimStart_append, List.cons_append, trimStart_cons rfl]
    simp only [namesUniversal_cons (c := '+') (by decide), offset?_append offset]
    rfl
  | @behind n gap s c blank minus offset =>
    rw [List.append_assoc, zone?, blank.trimStart_append, List.cons_append]
    rcases minus with rfl | rfl
    · rw [trimStart_cons rfl]
      simp only [namesUniversal_cons (c := '-') (by decide), offset?_append offset]
      rfl
    · rw [trimStart_cons rfl]
      simp only [namesUniversal_cons (c := '−') (by decide), offset?_append offset]
      rfl

theorem zone?_eq_some {n : Int} {s rest : List Char} (h : zone? s = some (n, rest)) :
    ∃ t, SpellsZone n t ∧ s = t ++ rest := by
  obtain ⟨gap, blank, hgap⟩ := exists_blank s
  unfold zone? at h
  dsimp only at h
  split at h
  · rename_i hnamed
    obtain ⟨a, b, c, more, u, t, c', hs⟩ := namesUniversal_eq_true hnamed
    rw [hs] at h hgap
    obtain ⟨rfl, rfl⟩ := Prod.mk.inj (Option.some.inj h)
    exact ⟨_, .named blank u t c', by rw [List.append_assoc]; exact hgap⟩
  · split at h
    · rename_i c more hs
      split at h
      · rename_i zulu
        obtain ⟨rfl, rfl⟩ := Prod.mk.inj (Option.some.inj h)
        exact ⟨_, .letter blank zulu, by
          rw [List.append_assoc, List.singleton_append, ← hs, ← hgap]⟩
      · split at h
        · rename_i hplus
          obtain rfl := hplus
          obtain ⟨⟨m, _⟩, hoffset, heq⟩ := Option.map_eq_some_iff.1 h
          obtain ⟨rfl, rfl⟩ := Prod.mk.inj heq
          obtain ⟨t, offset, rfl⟩ := offset?_eq_some hoffset
          exact ⟨_, .ahead blank offset, by rw [List.append_assoc, List.cons_append, ← hs, ← hgap]⟩
        · split at h
          · rename_i minus
            obtain ⟨⟨m, _⟩, hoffset, heq⟩ := Option.map_eq_some_iff.1 h
            obtain ⟨rfl, rfl⟩ := Prod.mk.inj heq
            obtain ⟨t, offset, rfl⟩ := offset?_eq_some hoffset
            exact ⟨_, .behind blank minus offset, by
              rw [List.append_assoc, List.cons_append, ← hs, ← hgap]⟩
          · cases h
    · cases h

/-! ### Where parts end -/

/-- A text that no number or fraction before it goes on with. -/
def Apart (s : List Char) : Prop :=
  ∃ c rest, s = c :: rest ∧ c.isDigit = false ∧ c ≠ '.'

theorem Apart.append {t : List Char} (h : Apart t) (rest : List Char) : Apart (t ++ rest) := by
  obtain ⟨c, more, rfl, hc⟩ := h
  exact ⟨c, more ++ rest, rfl, hc⟩

theorem Apart.endsDigits {s : List Char} (h : Apart s) : EndsDigits s := by
  obtain ⟨c, rest, rfl, hc, -⟩ := h
  exact endsDigits_cons hc rest

theorem Apart.head_ne_point {s : List Char} (h : Apart s) : s.head? ≠ some '.' := by
  obtain ⟨c, rest, rfl, -, hc⟩ := h
  exact fun heq => hc (Option.some.inj heq)

theorem Blank.apart {gap : List Char} (h : Blank gap) {s : List Char} (hs : Apart s) :
    Apart (gap ++ s) := by
  cases gap with
  | nil => exact hs
  | cons c gap =>
    have hc : isSpace c = true := h c List.mem_cons_self
    refine ⟨c, gap ++ s, rfl, Bool.eq_false_iff.2 fun hdigit => ?_, ?_⟩
    · rw [isSpace_of_isDigit hdigit] at hc
      cases hc
    · rintro rfl
      cases hc

theorem SpellsMark.apart {c : Char} (hdigit : c.isDigit = false) (hpoint : c ≠ '.')
    {t : List Char} (h : SpellsMark c t) : Apart t := by
  obtain ⟨blank⟩ := h
  exact blank.apart ⟨c, [], rfl, hdigit, hpoint⟩

theorem SpellsDivider.apart {t : List Char} (h : SpellsDivider t) : Apart t := by
  obtain ⟨divides⟩ := h
  refine ⟨_, [], rfl, ?_, ?_⟩ <;> rcases divides with rfl | rfl | rfl <;> decide

theorem SpellsZone.apart {n : Int} {t : List Char} (h : SpellsZone n t) : Apart t := by
  cases h with
  | named blank u =>
    refine blank.apart ⟨_, _, rfl, ?_, ?_⟩ <;> rcases u with rfl | rfl <;> decide
  | letter blank zulu =>
    refine blank.apart ⟨_, _, rfl, ?_, ?_⟩ <;> rcases zulu with rfl | rfl <;> decide
  | ahead blank => exact blank.apart ⟨_, _, rfl, by decide, by decide⟩
  | behind blank minus =>
    refine blank.apart ⟨_, _, rfl, ?_, ?_⟩ <;> rcases minus with rfl | rfl <;> decide

theorem SpellsZone.range {n : Int} {t : List Char} (h : SpellsZone n t) :
    -1440 < n ∧ n < 1440 := by
  have hoffset {m : Nat} {u : List Char} (h : SpellsOffset m u) : m < 1440 := by
    obtain ⟨-, -, -, hours_lt, minutes_lt⟩ := h
    omega
  cases h with
  | named => decide
  | letter => decide
  | ahead _ offset =>
    have hlt := hoffset offset
    omega
  | behind _ _ offset =>
    have hlt := hoffset offset
    omega

/-! ### Whole texts -/

section Followed

variable {P Q : List Char → Prop} {s : List Char}

theorem Followed.apart (h : Followed P Q s) (hP : ∀ {t}, P t → Apart t) : Apart s := by
  obtain ⟨t, rest, ht, rfl, -⟩ := h
  exact (hP ht).append rest

/-- What reads the first part whatever follows it leaves the second. -/
theorem Followed.reads {α : Type} {read : List Char → Option α} {f : List Char → α}
    (h : Followed P Q s) (reads : ∀ t rest, P t → Q rest → read (t ++ rest) = some (f rest)) :
    ∃ rest, read s = some (f rest) ∧ Q rest := by
  obtain ⟨t, rest, ht, rfl, hrest⟩ := h
  exact ⟨rest, reads t rest ht hrest, hrest⟩

/-- After the seconds comes a fraction, which begins with a point, or else the zone. -/
theorem Followed.endsDigits_fraction {n : Nat} (h : Followed (SpellsFraction n) Q s)
    (hQ : ∀ {rest}, Q rest → Apart rest) : EndsDigits s := by
  obtain ⟨t, rest, ht, rfl, hrest⟩ := h
  cases ht with
  | absent => exact (hQ hrest).endsDigits
  | present => exact endsDigits_cons rfl _

end Followed

/-- The instant at which the clock shows the reading, if both the date that the clock shows and the
date in universal time can be written down. -/
def ClockReading.instant? (r : ClockReading) : Option Instant :=
  if admits r.date then
    (ofClock? r.date (60 * r.hour + r.minute) r.second r.nanosecond r.ahead).filter
      fun t => admits t.date
  else none

theorem ClockReading.instant?_eq_some_iff {r : ClockReading} {t : Instant} :
    r.instant? = some t ↔ admits r.date = true ∧ admits t.date = true ∧ r.At t := by
  have hminute : 60 * r.hour + r.minute < 1440 := by
    have hhour := r.hour_lt
    have hminute := r.minute_lt
    omega
  have hclock : ofClock? r.date (60 * r.hour + r.minute) r.second r.nanosecond r.ahead = some t ↔
      r.At t := by
    rw [ofClock?_eq_some_iff hminute r.ahead_lt]
    push_cast
    exact ⟨fun ⟨h, h', h''⟩ => ⟨h, h', h''⟩, fun h => ⟨h.1, h.2, h.3⟩⟩
  rw [instant?]
  split
  · rename_i shown
    rw [Option.filter_eq_some_iff, hclock]
    exact ⟨fun h => ⟨shown, h.2, h.1⟩, fun h => ⟨h.2.2, h.2.1⟩⟩
  · rename_i hidden
    exact iff_of_false nofun fun h => hidden h.1

theorem bind_of_eq_some {α β : Type} {o : Option α} {a : α} {f : α → Option β}
    (h : o = some a) : (o >>= f) = f a := by
  rw [h]
  rfl

/-- A text that spells what a clock shows is read as the instant at which the clock shows it. -/
theorem read?_of_spelt {r : ClockReading} {s : String} (spelt : r.Spelt s) :
    read? s = r.instant? := by
  have hdash {Q s} (h : Followed (SpellsMark '-') Q s) : EndsDigits s :=
    (h.apart fun h => h.apart rfl (by decide)).endsDigits
  have hcolon {Q s} (h : Followed (SpellsMark ':') Q s) : EndsDigits s :=
    (h.apart fun h => h.apart rfl (by decide)).endsDigits
  have hdivider {Q s} (h : Followed SpellsDivider Q s) : EndsDigits s :=
    (h.apart fun h => h.apart).endsDigits
  have hzone {Q s} (h : Followed (SpellsZone r.ahead) Q s) : Apart s := h.apart fun h => h.apart
  have hspace : isSpace '-' = false := rfl
  have hspace' : isSpace ':' = false := rfl
  obtain ⟨_, year, spelt⟩ := spelt.reads fun _ _ h rest => year?_append h (hdash rest)
  obtain ⟨_, dash, spelt⟩ := spelt.reads fun _ rest h _ => mark?_append hspace h rest
  obtain ⟨_, month, spelt⟩ := spelt.reads fun _ _ h rest => number?_append h (hdash rest)
  obtain ⟨_, dash', spelt⟩ := spelt.reads fun _ rest h _ => mark?_append hspace h rest
  obtain ⟨_, day, spelt⟩ := spelt.reads fun _ _ h rest => number?_append h (hdivider rest)
  obtain ⟨_, divider, spelt⟩ := spelt.reads fun _ rest h _ => divider?_append h rest
  obtain ⟨_, hour, spelt⟩ := spelt.reads fun _ _ h rest => number?_append h (hcolon rest)
  obtain ⟨_, colon, spelt⟩ := spelt.reads fun _ rest h _ => mark?_append hspace' h rest
  obtain ⟨_, minute, spelt⟩ := spelt.reads fun _ _ h rest => number?_append h (hcolon rest)
  obtain ⟨_, colon', spelt⟩ := spelt.reads fun _ rest h _ => mark?_append hspace' h rest
  obtain ⟨_, second, spelt⟩ := spelt.reads fun _ _ h rest =>
    number?_append h (rest.endsDigits_fraction hzone)
  obtain ⟨_, fraction, spelt⟩ := spelt.reads fun _ _ h rest =>
    fraction?_append h (hzone rest).endsDigits (hzone rest).head_ne_point
  obtain ⟨after, zone, blank⟩ := spelt.reads fun _ rest h _ => zone?_append h rest
  have hblank : after.all isSpace = true := List.all_eq_true.2 blank
  refine (bind_of_eq_some year).trans ?_
  refine (bind_of_eq_some dash).trans ?_
  refine (bind_of_eq_some month).trans ?_
  refine (bind_of_eq_some dash').trans ?_
  refine (bind_of_eq_some day).trans ?_
  refine (bind_of_eq_some divider).trans ?_
  refine (bind_of_eq_some hour).trans ?_
  refine (bind_of_eq_some colon).trans ?_
  refine (bind_of_eq_some minute).trans ?_
  refine (bind_of_eq_some colon').trans ?_
  refine (bind_of_eq_some second).trans ?_
  refine (bind_of_eq_some fraction).trans ?_
  refine (bind_of_eq_some zone).trans ?_
  -- nothing is left to read: what remains is what is asked of the numbers
  simp only [hblank, Bool.not_true, Bool.false_eq_true, if_false, ofFields?_eq,
    Nat.not_le.2 r.hour_lt, Nat.not_le.2 r.minute_lt, decide_false, Bool.or_false,
    Option.bind_eq_bind, Option.bind_some, ClockReading.instant?]
  cases hshown : admits r.date with
  | false => rfl
  | true =>
    simp only [Bool.not_true, Bool.false_eq_true, if_false, if_true]
    cases ofClock? r.date (60 * r.hour + r.minute) r.second r.nanosecond r.ahead with
    | none => rfl
    | some t => rfl

theorem eq_of_ofFields? {year : Int} {month day : Nat} {d : Date}
    (h : Date.ofFields? year month day = some d) :
    d.year = year ∧ d.month = month ∧ d.day = day := by
  unfold Date.ofFields? at h
  split at h
  · obtain rfl := Option.some.inj h
    exact ⟨rfl, rfl, rfl⟩
  · cases h

/-- A text that is read spells what a clock shows. -/
theorem exists_spelt_of_read? {s : String} {t : Instant} (h : read? s = some t) :
    ∃ r : ClockReading, r.Spelt s := by
  obtain ⟨⟨y, _⟩, hyear, h⟩ := Option.bind_eq_some_iff.1 h
  obtain ⟨_, hdash, h⟩ := Option.bind_eq_some_iff.1 h
  obtain ⟨⟨m, _⟩, hmonth, h⟩ := Option.bind_eq_some_iff.1 h
  obtain ⟨_, hdash', h⟩ := Option.bind_eq_some_iff.1 h
  obtain ⟨⟨d, _⟩, hday, h⟩ := Option.bind_eq_some_iff.1 h
  obtain ⟨_, hdivider, h⟩ := Option.bind_eq_some_iff.1 h
  obtain ⟨⟨hour, _⟩, hhour, h⟩ := Option.bind_eq_some_iff.1 h
  obtain ⟨_, hcolon, h⟩ := Option.bind_eq_some_iff.1 h
  obtain ⟨⟨minute, _⟩, hminute, h⟩ := Option.bind_eq_some_iff.1 h
  obtain ⟨_, hcolon', h⟩ := Option.bind_eq_some_iff.1 h
  obtain ⟨⟨second, _⟩, hsecond, h⟩ := Option.bind_eq_some_iff.1 h
  obtain ⟨⟨nanosecond, _⟩, hfraction, h⟩ := Option.bind_eq_some_iff.1 h
  obtain ⟨⟨ahead, after⟩, hzone, h⟩ := Option.bind_eq_some_iff.1 h
  dsimp only at *
  split at h
  · cases h
  · rename_i hblank
    obtain ⟨date, hdate, h⟩ := Option.bind_eq_some_iff.1 h
    split at h
    · cases h
    · rename_i hchecks
      obtain ⟨u, hclock, -⟩ := Option.bind_eq_some_iff.1 h
      obtain ⟨rfl, rfl, rfl⟩ := eq_of_ofFields? hdate
      obtain ⟨-, rfl, rfl⟩ := of_ofClock? hclock
      simp only [Bool.or_eq_true, decide_eq_true_eq, not_or, Nat.not_le] at hchecks
      obtain ⟨⟨-, hour_lt⟩, minute_lt⟩ := hchecks
      have blank : Blank after := by simpa [Blank] using hblank
      obtain ⟨_, year, h₀⟩ := year?_eq_some hyear
      obtain ⟨_, dash, h₁⟩ := mark?_eq_some hdash
      obtain ⟨_, month, h₂⟩ := number?_eq_some hmonth
      obtain ⟨_, dash', h₃⟩ := mark?_eq_some hdash'
      obtain ⟨_, day, h₄⟩ := number?_eq_some hday
      obtain ⟨_, divider, h₅⟩ := divider?_eq_some hdivider
      obtain ⟨_, hour, h₆⟩ := number?_eq_some hhour
      obtain ⟨_, colon, h₇⟩ := mark?_eq_some hcolon
      obtain ⟨_, minute, h₈⟩ := number?_eq_some hminute
      obtain ⟨_, colon', h₉⟩ := mark?_eq_some hcolon'
      obtain ⟨_, second, h₁₀⟩ := number?_eq_some hsecond
      obtain ⟨_, fraction, h₁₁⟩ := fraction?_eq_some hfraction
      obtain ⟨_, zone, h₁₂⟩ := zone?_eq_some hzone
      exact ⟨⟨date, _, _, u.second, u.nanosecond, ahead, hour_lt, minute_lt, u.second_le,
        zone.range⟩, _, _, year, h₀, _, _, dash, h₁, _, _, month, h₂, _, _, dash', h₃,
        _, _, day, h₄, _, _, divider, h₅, _, _, hour, h₆, _, _, colon, h₇, _, _, minute, h₈,
        _, _, colon', h₉, _, _, second, h₁₀, _, _, fraction, h₁₁, _, _, zone, h₁₂, blank⟩

/-- A text is read as an instant exactly if it spells what a clock shows at the instant, where both
the date that the clock shows and the date in universal time can be written down. -/
theorem read?_eq_some_iff {s : String} {t : Instant} : read? s = some t ↔
    ∃ r : ClockReading, r.Spelt s ∧ admits r.date = true ∧ admits t.date = true ∧ r.At t := by
  constructor
  · intro h
    obtain ⟨r, spelt⟩ := exists_spelt_of_read? h
    exact ⟨r, spelt, ClockReading.instant?_eq_some_iff.1 ((read?_of_spelt spelt).symm.trans h)⟩
  · rintro ⟨r, spelt, hr⟩
    exact (read?_of_spelt spelt).trans (ClockReading.instant?_eq_some_iff.2 hr)

end Federation.Instant
