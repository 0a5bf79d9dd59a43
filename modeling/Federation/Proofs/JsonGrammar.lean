import Federation.Proofs.JsonText

/-!
# The grammar of JSON

Which texts spell which trees is laid down here apart from any reader: gaps may stand between all
parts, strings hold characters and escapes, numbers have no zero in front, and the parts of arrays
and objects are divided by commas. Strings and numbers are read exactly as they are spelt, up to
where they end.
-/

namespace Federation.Json

/-! ### Gaps, strings and numbers -/

/-- Text between the parts of a value. -/
def Gap (s : List Char) : Prop :=
  ∀ c ∈ s, isGap c = true

/-- What stands between the quotes of a string, and the units that it stands for. -/
inductive StringBody : List Char → List Nat → Prop where
  | nil : StringBody [] []
  | plain {c : Char} {s : List Char} {units : List Nat} (quote : c ≠ '\x22')
      (backslash : c ≠ '\\') (control : ¬ c.toNat < 0x20) (rest : StringBody s units) :
      StringBody (c :: s) (c.toNat :: units)
  | letter {a c : Char} {s : List Char} {units : List Nat} (stands : simpleEscape? a = some c)
      (rest : StringBody s units) : StringBody ('\\' :: a :: s) (c.toNat :: units)
  | number {a b c d : Char} {n : Nat} {s : List Char} {units : List Nat}
      (stands : hexUnit? a b c d = some n) (rest : StringBody s units) :
      StringBody ('\\' :: 'u' :: a :: b :: c :: d :: s) (n :: units)

/-- One digit or more. -/
structure Digits (s : List Char) : Prop where
  ne_nil : s ≠ []
  isDigit : ∀ c ∈ s, c.isDigit = true

/-- A whole number without a sign. -/
structure WholeText (s : List Char) : Prop where
  digits : Digits s
  leading : s.head? = some '0' → s = ['0']

/-- A point and digits, or nothing. -/
inductive FractionText : List Char → Prop where
  | absent : FractionText []
  | present {ds : List Char} (digits : Digits ds) : FractionText ('.' :: ds)

/-- A letter `e`, an optional sign and digits, or nothing. -/
inductive ExponentText : List Char → Prop where
  | absent : ExponentText []
  | present {e : Char} {sign ds : List Char} (letter : e = 'e' ∨ e = 'E')
      (signed : sign = [] ∨ sign = ['+'] ∨ sign = ['-']) (digits : Digits ds) :
      ExponentText (e :: (sign ++ ds))

/-- A number. -/
inductive NumberText : List Char → Prop where
  | parts {sign whole fraction exponent : List Char} (signed : sign = [] ∨ sign = ['-'])
      (hwhole : WholeText whole) (hfraction : FractionText fraction)
      (hexponent : ExponentText exponent) :
      NumberText (sign ++ (whole ++ (fraction ++ exponent)))

/-- A string with its quotes. It has no text of its own if a surrogate in it has no partner. -/
def StringText (value : Option String) (s : List Char) : Prop :=
  ∃ body units, StringBody body units ∧ s = '\x22' :: (body ++ ['\x22']) ∧
    value = (unitsText? units).map String.ofList

/-! ### Trees -/

/-- A text with gaps around it. -/
def Padded (P : List Char → Prop) (s : List Char) : Prop :=
  ∃ before body after, Gap before ∧ P body ∧ Gap after ∧ s = before ++ (body ++ after)

mutual

/-- The text spells the value, without gaps around it. -/
def Spells : Json → List Char → Prop
  | null, s => s = "null".toList
  | bool true, s => s = "true".toList
  | bool false, s => s = "false".toList
  | number spelling, s => s = spelling.toList ∧ NumberText s
  | text value, s => StringText value s
  | array items, s => ∃ body, SpellsItems items body ∧ s = '[' :: (body ++ [']'])
  | object members, s => ∃ body, SpellsMembers members body ∧ s = '{' :: (body ++ ['}'])
  | broken, _ => False

/-- The text spells the items of an array, with commas between them. -/
def SpellsItems : List Json → List Char → Prop
  | [], s => Gap s
  | [j], s => Padded (Spells j) s
  | j :: more, s => ∃ first rest, Padded (Spells j) first ∧ SpellsItems more rest ∧
      s = first ++ ',' :: rest

/-- The text spells the members of an object, with commas between them. -/
def SpellsMembers : List (Option String × Json) → List Char → Prop
  | [], s => Gap s
  | [(k, j)], s => ∃ name value, Padded (StringText k) name ∧ Padded (Spells j) value ∧
      s = name ++ ':' :: value
  | (k, j) :: more, s => ∃ name value rest, Padded (StringText k) name ∧
      Padded (Spells j) value ∧ SpellsMembers more rest ∧
      s = name ++ ':' :: (value ++ ',' :: rest)

end

/-- A whole text spells the value. -/
def Denotes (s : String) (j : Json) : Prop :=
  Padded (Spells j) s.toList

/-! ### Reading strings -/

theorem stringUnits?_of_body {body : List Char} {units : List Nat} (h : StringBody body units)
    (rest : List Char) : stringUnits? (body ++ '\x22' :: rest) = some (units, rest) := by
  induction h with
  | nil => rfl
  | plain quote backslash control _ ih =>
    rw [List.cons_append, stringUnits?_plain quote backslash control, ih]
    rfl
  | @letter a c s units stands _ ih =>
    have hletter : a ≠ 'u' := by
      rintro rfl
      cases stands
    rw [List.cons_append, List.cons_append, stringUnits?_simpleEscape stands hletter, ih]
    rfl
  | number stands _ ih =>
    simp only [List.cons_append, stringUnits?, stands, ih]

theorem string?_of_body {body : List Char} {units : List Nat} (h : StringBody body units)
    (rest : List Char) :
    string? (body ++ '\x22' :: rest) = some ((unitsText? units).map String.ofList, rest) := by
  rw [string?, stringUnits?_of_body h]
  rfl

theorem exists_body_of_stringUnits? {s rest : List Char} {units : List Nat}
    (h : stringUnits? s = some (units, rest)) :
    ∃ body, StringBody body units ∧ s = body ++ '\x22' :: rest := by
  fun_induction stringUnits? s generalizing units rest with
  | case1 => cases h
  | case2 a b c d s n more left hs hn ih =>
    cases h
    obtain ⟨body, hbody, rfl⟩ := ih hs
    exact ⟨_, .number hn hbody, rfl⟩
  | case3 => cases h
  | case4 c s _ c' more left hs hc ih =>
    cases h
    obtain ⟨body, hbody, rfl⟩ := ih hs
    exact ⟨_, .letter hc hbody, rfl⟩
  | case5 => cases h
  | case6 s =>
    cases h
    exact ⟨[], .nil, rfl⟩
  | case7 => cases h
  | case8 c s _ _ hquote hplain more left hs ih =>
    cases h
    obtain ⟨control, backslash⟩ := not_or.1 hplain
    obtain ⟨body, hbody, rfl⟩ := ih hs
    exact ⟨_, .plain hquote backslash control hbody, rfl⟩
  | case9 => cases h

/-! ### Reading numbers -/

/-- A text that does not go on with a digit. -/
def EndsDigits (s : List Char) : Prop :=
  ∀ c ∈ s.head?, c.isDigit = false

/-- A text that no number before it goes on with. -/
def EndsNumber (s : List Char) : Prop :=
  ∀ c ∈ s.head?, c.isDigit = false ∧ c ≠ '.' ∧ c ≠ 'e' ∧ c ≠ 'E'

theorem spanDigits_append {ds rest : List Char} (h : ∀ c ∈ ds, c.isDigit = true)
    (hrest : EndsDigits rest) : spanDigits (ds ++ rest) = (ds, rest) := by
  have htake : rest.takeWhile Char.isDigit = [] ∧ rest.dropWhile Char.isDigit = rest := by
    cases rest with
    | nil => exact ⟨rfl, rfl⟩
    | cons c rest =>
      have hc : ¬ c.isDigit = true := by rw [hrest c rfl]; exact Bool.false_ne_true
      exact ⟨List.takeWhile_cons_of_neg hc, List.dropWhile_cons_of_neg hc⟩
  rw [spanDigits, List.takeWhile_append_of_pos h, List.dropWhile_append_of_pos h, htake.1, htake.2,
    List.append_nil]

theorem spanDigits_eq_iff {s ds rest : List Char} (h : spanDigits s = (ds, rest)) :
    s = ds ++ rest ∧ ∀ c ∈ ds, c.isDigit = true := by
  obtain ⟨rfl, rfl⟩ := Prod.mk.inj h
  exact ⟨List.takeWhile_append_dropWhile.symm, fun c hc => List.mem_takeWhile_imp hc⟩

theorem wholePart?_append {s rest : List Char} (h : WholeText s) (hrest : EndsDigits rest) :
    wholePart? (s ++ rest) = some (s, rest) := by
  rw [wholePart?, spanDigits_append h.digits.isDigit hrest]
  split
  · rename_i heq
    exact absurd (Prod.mk.inj heq).1 h.digits.ne_nil
  · rename_i heq
    obtain ⟨rfl, rfl⟩ := Prod.mk.inj heq
    cases h.leading rfl
  · rfl

theorem wholePart?_eq_some {s ds rest : List Char} (h : wholePart? s = some (ds, rest)) :
    s = ds ++ rest ∧ WholeText ds := by
  unfold wholePart? at h
  split at h
  · cases h
  · cases h
  · rename_i hnil hzero
    obtain ⟨hs, hdigit⟩ := spanDigits_eq_iff (Option.some.inj h)
    refine ⟨hs, ⟨?_, hdigit⟩, ?_⟩
    · rintro rfl
      exact hnil _ (Option.some.inj h)
    · intro hhead
      cases ds with
      | nil => cases hhead
      | cons c more =>
        obtain rfl := Option.some.inj hhead
        cases more with
        | nil => rfl
        | cons d more => exact absurd (Option.some.inj h) (hzero d more rest)

theorem fractionPart?_append {s rest : List Char} (h : FractionText s) (hrest : EndsDigits rest)
    (hpoint : rest.head? ≠ some '.') : fractionPart? (s ++ rest) = some (s, rest) := by
  cases h with
  | absent =>
    rw [List.nil_append, fractionPart?]
    rintro more rfl
    exact hpoint rfl
  | @present ds digits =>
    rw [List.cons_append, fractionPart?, spanDigits_append digits.isDigit hrest]
    split
    · rename_i heq
      exact absurd (Prod.mk.inj heq).1 digits.ne_nil
    · rename_i heq
      obtain ⟨rfl, rfl⟩ := Prod.mk.inj heq
      rfl

theorem fractionPart?_eq_some {s f rest : List Char} (h : fractionPart? s = some (f, rest)) :
    s = f ++ rest ∧ FractionText f := by
  unfold fractionPart? at h
  split at h
  · split at h
    · cases h
    · rename_i hnil heq
      obtain ⟨rfl, hdigit⟩ := spanDigits_eq_iff heq
      cases h
      exact ⟨rfl, .present ⟨hnil, hdigit⟩⟩
  · cases h
    exact ⟨rfl, .absent⟩

theorem exponentPart?_append {s rest : List Char} (h : ExponentText s) (hrest : EndsNumber rest) :
    exponentPart? (s ++ rest) = some (s, rest) := by
  cases h with
  | absent =>
    cases rest with
    | nil => rfl
    | cons c rest =>
      obtain ⟨-, -, he, hE⟩ := hrest c rfl
      rw [List.nil_append, exponentPart?, if_neg (not_or.2 ⟨he, hE⟩)]
  | @present e sign ds letter signed digits =>
    have hsign : exponentSign (sign ++ (ds ++ rest)) = (sign, ds ++ rest) := by
      rcases signed with rfl | rfl | rfl
      · obtain ⟨d, more, rfl⟩ := List.exists_cons_of_ne_nil digits.ne_nil
        have hd := digits.isDigit d List.mem_cons_self
        have hnot : ¬ (d = '+' ∨ d = '-') := by
          rintro (rfl | rfl)
          · cases hd
          · cases hd
        rw [List.nil_append, List.cons_append, exponentSign, if_neg hnot]
      · rfl
      · rfl
    rw [List.cons_append, List.append_assoc, exponentPart?, if_pos letter, hsign]
    simp only [spanDigits_append digits.isDigit fun c hc => (hrest c hc).1]
    split
    · rename_i heq
      exact absurd (Prod.mk.inj heq).1 digits.ne_nil
    · rename_i heq
      obtain ⟨rfl, rfl⟩ := Prod.mk.inj heq
      rfl

theorem exponentPart?_eq_some {s e rest : List Char} (h : exponentPart? s = some (e, rest)) :
    s = e ++ rest ∧ ExponentText e := by
  unfold exponentPart? at h
  split at h
  · rename_i c more
    split at h
    · rename_i letter
      have hsign : more = (exponentSign more).1 ++ (exponentSign more).2 ∧
          ((exponentSign more).1 = [] ∨ (exponentSign more).1 = ['+'] ∨
            (exponentSign more).1 = ['-']) := by
        unfold exponentSign
        split
        · split
          · rename_i hsigned
            rcases hsigned with rfl | rfl
            · exact ⟨rfl, Or.inr (Or.inl rfl)⟩
            · exact ⟨rfl, Or.inr (Or.inr rfl)⟩
          · exact ⟨rfl, Or.inl rfl⟩
        · exact ⟨rfl, Or.inl rfl⟩
      dsimp only at h
      split at h
      · cases h
      · rename_i ds left hnil heq
        cases h
        obtain ⟨hmore, hdigit⟩ := spanDigits_eq_iff heq
        refine ⟨?_, .present letter hsign.2 ⟨hnil, hdigit⟩⟩
        rw [List.cons_append, List.cons_append, List.append_assoc, ← hmore, ← hsign.1]
    · cases h
      exact ⟨rfl, .absent⟩
  · cases h
    exact ⟨rfl, .absent⟩

/-- The sign of a number and what follows it. -/
def numberSign : List Char → List Char × List Char
  | '-' :: rest => (['-'], rest)
  | s => ([], s)

theorem number?_eq (s : List Char) : number? s = (do
    let (whole, rest) ← wholePart? (numberSign s).2
    let (fraction, rest) ← fractionPart? rest
    let (exponent, rest) ← exponentPart? rest
    some (String.ofList ((numberSign s).1 ++ whole ++ fraction ++ exponent), rest)) :=
  rfl

theorem numberSign_append {sign s : List Char} (signed : sign = [] ∨ sign = ['-'])
    (hs : s.head? ≠ some '-') : numberSign (sign ++ s) = (sign, s) := by
  rcases signed with rfl | rfl
  · rw [List.nil_append, numberSign]
    rintro more rfl
    exact hs rfl
  · rfl

theorem numberSign_spec (s : List Char) : s = (numberSign s).1 ++ (numberSign s).2 ∧
    ((numberSign s).1 = [] ∨ (numberSign s).1 = ['-']) := by
  unfold numberSign
  split
  · exact ⟨rfl, Or.inr rfl⟩
  · exact ⟨rfl, Or.inl rfl⟩

theorem EndsNumber.digits {s : List Char} (h : EndsNumber s) : EndsDigits s :=
  fun c hc => (h c hc).1

theorem ExponentText.ends {s rest : List Char} (h : ExponentText s) (hrest : EndsNumber rest) :
    EndsDigits (s ++ rest) ∧ (s ++ rest).head? ≠ some '.' := by
  cases h with
  | absent => exact ⟨hrest.digits, fun hpoint => (hrest '.' hpoint).2.1 rfl⟩
  | present letter =>
    refine ⟨fun c hc => ?_, fun hpoint => ?_⟩
    · obtain rfl := Option.some.inj hc
      rcases letter with rfl | rfl <;> rfl
    · obtain rfl := Option.some.inj hpoint
      rcases letter with h | h <;> cases h

theorem FractionText.ends {s rest : List Char} (h : FractionText s) (hrest : EndsDigits rest) :
    EndsDigits (s ++ rest) := by
  cases h with
  | absent => exact hrest
  | present =>
    rintro c hc
    obtain rfl := Option.some.inj hc
    rfl

/-- A number is read as it is spelt, up to its end. -/
theorem number?_append {s rest : List Char} (h : NumberText s) (hrest : EndsNumber rest) :
    number? (s ++ rest) = some (String.ofList s, rest) := by
  obtain ⟨signed, hwhole, hfraction, hexponent⟩ := h
  rename_i sign whole fraction exponent
  obtain ⟨hdigits, hpoint⟩ := hexponent.ends hrest
  have hminus : (whole ++ (fraction ++ (exponent ++ rest))).head? ≠ some '-' := by
    obtain ⟨c, more, rfl⟩ := List.exists_cons_of_ne_nil hwhole.digits.ne_nil
    intro hc
    obtain rfl := Option.some.inj hc
    cases hwhole.digits.isDigit '-' List.mem_cons_self
  simp only [number?_eq, List.append_assoc, numberSign_append signed hminus,
    wholePart?_append hwhole (hfraction.ends hdigits),
    fractionPart?_append hfraction hdigits hpoint, exponentPart?_append hexponent hrest,
    Option.bind_eq_bind, Option.bind_some]

/-- Only numbers are read as numbers. -/
theorem number?_eq_some {s rest : List Char} {spelling : String}
    (h : number? s = some (spelling, rest)) :
    s = spelling.toList ++ rest ∧ NumberText spelling.toList := by
  rw [number?_eq] at h
  obtain ⟨hs, signed⟩ := numberSign_spec s
  obtain ⟨⟨whole, _⟩, hwhole, h⟩ := Option.bind_eq_some_iff.1 h
  obtain ⟨⟨fraction, _⟩, hfraction, h⟩ := Option.bind_eq_some_iff.1 h
  obtain ⟨⟨exponent, _⟩, hexponent, h⟩ := Option.bind_eq_some_iff.1 h
  obtain ⟨rfl, rfl⟩ := Prod.mk.inj (Option.some.inj h)
  obtain ⟨hafter, wholeText⟩ := wholePart?_eq_some hwhole
  obtain ⟨rfl, fractionText⟩ := fractionPart?_eq_some hfraction
  obtain ⟨rfl, exponentText⟩ := exponentPart?_eq_some hexponent
  rw [hafter] at hs
  simp only [String.toList_ofList, List.append_assoc]
  exact ⟨hs, .parts signed wholeText fractionText exponentText⟩

end Federation.Json
