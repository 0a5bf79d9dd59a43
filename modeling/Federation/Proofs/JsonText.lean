import Federation.Json.Printer
import Federation.Json.Reader
import Mathlib.Data.List.DropRight

/-!
# JSON text reads back

A string reads back whatever its characters are, since what is escaped is escaped in one way only
and all else stands for itself. A tree of strings, arrays and records that is laid out in lines
reads back as it was.
-/

namespace Federation.Json

/-! ### Strings -/

theorem hexDigit?_digitChar : ∀ d < 16, hexDigit? (Nat.digitChar d) = some d := by
  decide

/-- The four digits of a control character. -/
theorem toDigits_control : ∀ n < 0x20,
    List.replicate (4 - (Nat.toDigits 16 n).length) '0' ++ Nat.toDigits 16 n =
      ['0', '0', Nat.digitChar (n / 16), Nat.digitChar (n % 16)] := by
  decide

theorem stringUnits?_controlEscape {c : Char} (h : c.toNat < 0x20) (rest : List Char) :
    stringUnits? (controlEscape c ++ rest) =
      (stringUnits? rest).map fun p => (c.toNat :: p.1, p.2) := by
  have hescape : controlEscape c = '\\' :: 'u' :: '0' :: '0' :: Nat.digitChar (c.toNat / 16) ::
      Nat.digitChar (c.toNat % 16) :: [] := by
    rw [controlEscape, List.append_assoc, toDigits_control _ h]
    rfl
  have hunit : hexUnit? '0' '0' (Nat.digitChar (c.toNat / 16)) (Nat.digitChar (c.toNat % 16)) =
      some c.toNat := by
    have hzero : hexDigit? '0' = some 0 := by decide
    rw [hexUnit?, hzero, hexDigit?_digitChar _ (by omega), hexDigit?_digitChar _ (by omega)]
    simp only [Option.bind_eq_bind, Option.bind_some, Option.some.injEq]
    omega
  rw [hescape]
  simp only [List.cons_append, List.nil_append, stringUnits?, hunit]
  cases stringUnits? rest <;> rfl

theorem stringUnits?_simpleEscape {letter c : Char} (h : simpleEscape? letter = some c)
    (hletter : letter ≠ 'u') (rest : List Char) :
    stringUnits? ('\\' :: letter :: rest) =
      (stringUnits? rest).map fun p => (c.toNat :: p.1, p.2) := by
  rw [stringUnits?.eq_3 _ _ fun _ _ _ _ _ hu _ => hletter hu, h]
  cases stringUnits? rest <;> rfl

theorem stringUnits?_plain {c : Char} (hquote : c ≠ '\x22') (hbackslash : c ≠ '\\')
    (hcontrol : ¬ c.toNat < 0x20) (rest : List Char) :
    stringUnits? (c :: rest) = (stringUnits? rest).map fun p => (c.toNat :: p.1, p.2) := by
  rw [stringUnits?.eq_4 _ _ (by simp [hbackslash]) (by simp [hbackslash]), if_neg hquote,
    if_neg (by simp [hcontrol, hbackslash])]
  cases stringUnits? rest <;> rfl

/-- A character is written as a backslash and a letter, as a number, or as it is. -/
theorem escape_cases (c : Char) :
    (∃ letter, escape c = ['\\', letter] ∧ simpleEscape? letter = some c ∧ letter ≠ 'u') ∨
    (escape c = controlEscape c ∧ c.toNat < 0x20) ∨
    (escape c = [c] ∧ c ≠ '\x22' ∧ c ≠ '\\' ∧ ¬ c.toNat < 0x20) := by
  have letter : ∀ a : Char, escape c = ['\\', a] → simpleEscape? a = some c → a ≠ 'u' →
      ∃ letter, escape c = ['\\', letter] ∧ simpleEscape? letter = some c ∧ letter ≠ 'u' :=
    fun a hescape hsimple ha => ⟨a, hescape, hsimple, ha⟩
  by_cases hquote : c = '\x22'
  · subst hquote
    exact Or.inl (letter '\x22' rfl rfl (by decide))
  by_cases hbackslash : c = '\\'
  · subst hbackslash
    exact Or.inl (letter '\\' rfl rfl (by decide))
  by_cases hb : c = '\x08'
  · subst hb
    exact Or.inl (letter 'b' rfl rfl (by decide))
  by_cases hf : c = '\x0c'
  · subst hf
    exact Or.inl (letter 'f' rfl rfl (by decide))
  by_cases hn : c = '\n'
  · subst hn
    exact Or.inl (letter 'n' rfl rfl (by decide))
  by_cases hr : c = '\r'
  · subst hr
    exact Or.inl (letter 'r' rfl rfl (by decide))
  by_cases ht : c = '\t'
  · subst ht
    exact Or.inl (letter 't' rfl rfl (by decide))
  right
  rw [escape, if_neg hquote, if_neg hbackslash, if_neg hb, if_neg hf, if_neg hn, if_neg hr,
    if_neg ht]
  by_cases hcontrol : c.toNat < 0x20
  · exact Or.inl ⟨if_pos hcontrol, hcontrol⟩
  · exact Or.inr ⟨if_neg hcontrol, hquote, hbackslash, hcontrol⟩

/-- Reading undoes the escape of one character. -/
theorem stringUnits?_escape (c : Char) (rest : List Char) :
    stringUnits? (escape c ++ rest) = (stringUnits? rest).map fun p => (c.toNat :: p.1, p.2) := by
  rcases escape_cases c with ⟨letter, hescape, hsimple, hletter⟩ | ⟨hescape, hcontrol⟩ |
    ⟨hescape, hquote, hbackslash, hcontrol⟩
  · rw [hescape]
    exact stringUnits?_simpleEscape hsimple hletter rest
  · rw [hescape]
    exact stringUnits?_controlEscape hcontrol rest
  · rw [hescape]
    exact stringUnits?_plain hquote hbackslash hcontrol rest

theorem stringUnits?_flatMap_escape (s rest : List Char) :
    stringUnits? (s.flatMap escape ++ '\x22' :: rest) = some (s.map Char.toNat, rest) := by
  induction s with
  | nil => rfl
  | cons c s ih =>
    rw [List.flatMap_cons, List.append_assoc, stringUnits?_escape, ih]
    rfl

theorem not_surrogate (c : Char) :
    isHighSurrogate c.toNat = false ∧ isLowSurrogate c.toNat = false := by
  have hvalid : c.toNat.isValidChar := c.valid
  rw [Nat.isValidChar] at hvalid
  constructor
  · rw [isHighSurrogate, Bool.and_eq_false_iff, decide_eq_false_iff_not, decide_eq_false_iff_not]
    omega
  · rw [isLowSurrogate, Bool.and_eq_false_iff, decide_eq_false_iff_not, decide_eq_false_iff_not]
    omega

/-- Code points are no surrogates, so that each of them is a character. -/
theorem unitsText?_map_toNat (s : List Char) : unitsText? (s.map Char.toNat) = some s := by
  induction s with
  | nil => rfl
  | cons c s ih =>
    obtain ⟨hhigh, hlow⟩ := not_surrogate c
    cases s with
    | nil => simp [unitsText?, hhigh, hlow, Char.ofNat_toNat]
    | cons d s =>
      rw [List.map_cons, List.map_cons, unitsText?, hhigh, hlow, ← List.map_cons, ih]
      simp [Char.ofNat_toNat]

/-- A string reads back after its opening quote, with what follows its closing quote. -/
theorem string?_escaped (s : String) (rest : List Char) :
    string? (s.toList.flatMap escape ++ '\x22' :: rest) = some (some s, rest) := by
  simp only [string?, stringUnits?_flatMap_escape, Option.map_some, unitsText?_map_toNat,
    String.ofList_toList]

/-! ### Gaps -/

theorem skipGap_newLine (level : Nat) (s : List Char) :
    skipGap (newLine level ++ s) = skipGap s := by
  have hgap : ∀ c ∈ newLine level, isGap c = true := by
    intro c hc
    rcases List.mem_cons.1 hc with rfl | hc
    · rfl
    · rw [List.eq_of_mem_replicate hc]
      rfl
  exact List.dropWhile_append_of_pos hgap

theorem skipGap_cons {c : Char} (h : isGap c = false) (s : List Char) :
    skipGap (c :: s) = c :: s := by
  rw [skipGap, List.dropWhile_cons_of_neg (by rw [h]; exact Bool.false_ne_true)]

theorem skipGap_skipGap (s : List Char) : skipGap (skipGap s) = skipGap s :=
  List.dropWhile_idempotent isGap s

theorem readValue_skipGap (fuel : Nat) (s : List Char) :
    readValue fuel (skipGap s) = readValue fuel s := by
  cases fuel with
  | zero => rfl
  | succ fuel => simp only [readValue, skipGap_skipGap]

theorem readItems_skipGap (fuel : Nat) (s : List Char) :
    readItems fuel (skipGap s) = readItems fuel s := by
  cases fuel with
  | zero => rfl
  | succ fuel => simp only [readItems, readValue_skipGap]

theorem readMembers_skipGap (fuel : Nat) (s : List Char) :
    readMembers fuel (skipGap s) = readMembers fuel s := by
  cases fuel with
  | zero => rfl
  | succ fuel => simp only [readMembers, skipGap_skipGap]

/-! ### Trees -/

/-- Trees of strings, arrays and records. -/
inductive Legible : Json → Prop where
  | str (s : String) : Legible (.str s)
  | array {items : List Json} (h : ∀ j ∈ items, Legible j) : Legible (.array items)
  | record {members : List (String × Json)} (h : ∀ m ∈ members, Legible m.2) :
      Legible (.record members)

/-- What is written for a tree is read as that tree. -/
def ReadsBack (j : Json) : Prop :=
  ∀ level fuel rest, (j.prettyChars level).length ≤ fuel →
    readValue fuel (j.prettyChars level ++ rest) = (j, some rest)

/-- The first character of a tree. -/
theorem Legible.exists_cons {j : Json} (h : Legible j) (level : Nat) :
    ∃ c s, j.prettyChars level = c :: s ∧ (c = '\x22' ∨ c = '[' ∨ c = '{') := by
  cases h with
  | str s => exact ⟨_, _, rfl, Or.inl rfl⟩
  | array h =>
    rename_i items
    cases items with
    | nil => exact ⟨_, _, rfl, Or.inr (Or.inl rfl)⟩
    | cons j rest => exact ⟨_, _, rfl, Or.inr (Or.inl rfl)⟩
  | record h =>
    rename_i members
    cases members with
    | nil => exact ⟨_, _, rfl, Or.inr (Or.inr rfl)⟩
    | cons m rest => exact ⟨_, _, rfl, Or.inr (Or.inr rfl)⟩

theorem readsBack_str (s : String) : ReadsBack (.str s) := by
  intro level fuel rest hfuel
  have htext : (Json.str s).prettyChars level = quote s.toList := by
    simp only [str, prettyChars, atom]
  rw [htext] at hfuel ⊢
  cases fuel with
  | zero => cases hfuel
  | succ fuel =>
    have hsplit : quote s.toList ++ rest =
        '\x22' :: (s.toList.flatMap escape ++ '\x22' :: rest) := by
      simp [quote]
    rw [hsplit, readValue, skipGap_cons rfl]
    simp only [string?_escaped]
    rfl

/-- A value on a line of its own. -/
theorem ReadsBack.onLine {j : Json} (h : ReadsBack j) {level fuel : Nat} (rest : List Char)
    (hfuel : (j.prettyChars level).length ≤ fuel) :
    readValue fuel (newLine level ++ (j.prettyChars level ++ rest)) = (j, some rest) := by
  rw [← readValue_skipGap, skipGap_newLine, readValue_skipGap]
  exact h level fuel rest hfuel

theorem readItems_end {fuel : Nat} {s after rest : List Char} {j : Json}
    (h : readValue fuel s = (j, some after)) (hafter : skipGap after = ']' :: rest) :
    readItems (fuel + 1) s = ([j], some rest) := by
  simp only [readItems, h, hafter]

theorem readItems_comma {fuel : Nat} {s after rest : List Char} {j : Json}
    (h : readValue fuel s = (j, some after)) (hafter : skipGap after = ',' :: rest) :
    readItems (fuel + 1) s = (j :: (readItems fuel rest).1, (readItems fuel rest).2) := by
  simp only [readItems, h, hafter]

theorem prettyItems_single (level : Nat) (j : Json) :
    prettyItems level [j] = newLine level ++ j.prettyChars level := by
  rw [prettyItems]

theorem prettyItems_cons (level : Nat) (j : Json) {more : List Json} (hne : more ≠ []) :
    prettyItems level (j :: more) =
      newLine level ++ (j.prettyChars level ++ ',' :: prettyItems level more) := by
  rw [prettyItems, List.append_assoc]
  exact hne

/-- Items are read one after another up to the bracket. -/
theorem readItems_prettyItems {items : List Json} (hne : items ≠ [])
    (h : ∀ j ∈ items, ReadsBack j) (level below fuel : Nat) (rest : List Char)
    (hfuel : (prettyItems level items).length ≤ fuel) :
    readItems fuel (prettyItems level items ++ (newLine below ++ ']' :: rest)) =
      (items, some rest) := by
  induction items generalizing fuel with
  | nil => exact absurd rfl hne
  | cons j more ih =>
    have hj := h j List.mem_cons_self
    have hlength : (newLine level).length = 2 * level + 1 := by simp [newLine]
    by_cases hmore : more = []
    · subst hmore
      rw [prettyItems_single, List.length_append] at hfuel
      obtain ⟨fuel, rfl⟩ : ∃ n, fuel = n + 1 := Nat.exists_eq_succ_of_ne_zero (by omega)
      rw [prettyItems_single, List.append_assoc]
      exact readItems_end (hj.onLine _ (by omega)) (by rw [skipGap_newLine, skipGap_cons rfl])
    · rw [prettyItems_cons _ _ hmore, List.length_append, List.length_append,
        List.length_cons] at hfuel
      obtain ⟨fuel, rfl⟩ : ∃ n, fuel = n + 1 := Nat.exists_eq_succ_of_ne_zero (by omega)
      have hrest := ih hmore (fun i hi => h i (List.mem_cons_of_mem _ hi)) fuel (by omega)
      rw [prettyItems_cons _ _ hmore, List.append_assoc, List.append_assoc, List.cons_append,
        readItems_comma (hj.onLine _ (by omega)) (skipGap_cons rfl _), hrest]

/-- A name and its value, after the quote that opens the name. -/
def memberChars (level : Nat) (m : String × Json) : List Char :=
  m.1.toList.flatMap escape ++ '\x22' :: ':' :: ' ' :: m.2.prettyChars level

/-- The members of a record as they are in its tree. -/
def named (members : List (String × Json)) : List (Option String × Json) :=
  members.map fun m => (some m.1, m.2)

theorem prettyMembers_single (level : Nat) (m : String × Json) :
    prettyMembers level (named [m]) = newLine level ++ '\x22' :: memberChars level m := by
  simp [named, prettyMembers, atom, quote, memberChars]

theorem prettyMembers_cons (level : Nat) (m : String × Json) {more : List (String × Json)}
    (hne : more ≠ []) : prettyMembers level (named (m :: more)) =
      newLine level ++ '\x22' :: (memberChars level m ++ ',' :: prettyMembers level (named more)) := by
  obtain ⟨k, more, rfl⟩ := List.exists_cons_of_ne_nil hne
  simp [named, prettyMembers, atom, quote, memberChars]

theorem memberChars_append (level : Nat) (m : String × Json) (after : List Char) :
    memberChars level m ++ after = m.1.toList.flatMap escape ++
      '\x22' :: ':' :: ' ' :: (m.2.prettyChars level ++ after) := by
  simp [memberChars]

section Member

variable {level fuel : Nat} {s after : List Char} {m : String × Json} (h : ReadsBack m.2)
  (hfuel : (memberChars level m).length ≤ fuel)
include h hfuel

/-- The value of a member, after the colon. -/
theorem ReadsBack.afterColon :
    readValue fuel (' ' :: (m.2.prettyChars level ++ after)) = (m.2, some after) := by
  have hblank : skipGap (' ' :: (m.2.prettyChars level ++ after)) =
      skipGap (m.2.prettyChars level ++ after) := List.dropWhile_cons_of_pos rfl
  have hlength : (m.2.prettyChars level).length ≤ (memberChars level m).length := by
    rw [memberChars, List.length_append, List.length_cons, List.length_cons, List.length_cons]
    omega
  rw [← readValue_skipGap, hblank, readValue_skipGap]
  exact h level fuel after (Nat.le_trans hlength hfuel)

variable (htext : skipGap s = '\x22' :: (memberChars level m ++ after))
include htext

theorem readMembers_end {rest : List Char} (hafter : skipGap after = '}' :: rest) :
    readMembers (fuel + 1) s = (named [m], some rest) := by
  rw [memberChars_append] at htext
  have hcolon : skipGap (':' :: ' ' :: (m.2.prettyChars level ++ after)) =
      ':' :: ' ' :: (m.2.prettyChars level ++ after) := skipGap_cons rfl _
  simp only [readMembers, htext, string?_escaped, hcolon, h.afterColon hfuel, hafter]
  rfl

theorem readMembers_comma {rest : List Char} (hafter : skipGap after = ',' :: rest) :
    readMembers (fuel + 1) s =
      ((some m.1, m.2) :: (readMembers fuel rest).1, (readMembers fuel rest).2) := by
  rw [memberChars_append] at htext
  have hcolon : skipGap (':' :: ' ' :: (m.2.prettyChars level ++ after)) =
      ':' :: ' ' :: (m.2.prettyChars level ++ after) := skipGap_cons rfl _
  simp only [readMembers, htext, string?_escaped, hcolon, h.afterColon hfuel, hafter]

end Member

/-- Members are read one after another up to the brace. -/
theorem readMembers_prettyMembers {members : List (String × Json)} (hne : members ≠ [])
    (h : ∀ m ∈ members, ReadsBack m.2) (level below fuel : Nat) (rest : List Char)
    (hfuel : (prettyMembers level (named members)).length ≤ fuel) :
    readMembers fuel (prettyMembers level (named members) ++ (newLine below ++ '}' :: rest)) =
      (named members, some rest) := by
  induction members generalizing fuel with
  | nil => exact absurd rfl hne
  | cons m more ih =>
    have hm := h m List.mem_cons_self
    have hlength : (newLine level).length = 2 * level + 1 := by simp [newLine]
    by_cases hmore : more = []
    · subst hmore
      rw [prettyMembers_single, List.length_append, List.length_cons] at hfuel
      obtain ⟨fuel, rfl⟩ : ∃ n, fuel = n + 1 := Nat.exists_eq_succ_of_ne_zero (by omega)
      have htext : skipGap (prettyMembers level (named [m]) ++ (newLine below ++ '}' :: rest)) =
          '\x22' :: (memberChars level m ++ (newLine below ++ '}' :: rest)) := by
        rw [prettyMembers_single, List.append_assoc, skipGap_newLine, List.cons_append,
          skipGap_cons rfl]
      exact readMembers_end hm (by omega) htext (by rw [skipGap_newLine, skipGap_cons rfl])
    · rw [prettyMembers_cons _ _ hmore, List.length_append, List.length_cons, List.length_append,
        List.length_cons] at hfuel
      obtain ⟨fuel, rfl⟩ : ∃ n, fuel = n + 1 := Nat.exists_eq_succ_of_ne_zero (by omega)
      have hrest := ih hmore (fun k hk => h k (List.mem_cons_of_mem _ hk)) fuel (by omega)
      have htext : skipGap (prettyMembers level (named (m :: more)) ++
          (newLine below ++ '}' :: rest)) = '\x22' :: (memberChars level m ++
            ',' :: (prettyMembers level (named more) ++ (newLine below ++ '}' :: rest))) := by
        rw [prettyMembers_cons _ _ hmore, List.append_assoc, skipGap_newLine, List.cons_append,
          skipGap_cons rfl, List.append_assoc, List.cons_append]
      rw [readMembers_comma hm (by omega) htext (skipGap_cons rfl _), hrest]
      rfl

theorem readValue_bracket {fuel : Nat} {s rest : List Char} {c : Char}
    (hfirst : skipGap s = c :: rest) (hc : c ≠ ']') :
    readValue (fuel + 1) ('[' :: s) = (array (readItems fuel s).1, (readItems fuel s).2) := by
  rw [readValue, skipGap_cons rfl]
  simp only [hfirst]
  rw [← readItems_skipGap, hfirst]
  split
  · exact absurd (List.cons.inj ‹_›).1 hc
  · rfl

theorem readValue_brace {fuel : Nat} {s rest : List Char} {c : Char}
    (hfirst : skipGap s = c :: rest) (hc : c ≠ '}') :
    readValue (fuel + 1) ('{' :: s) = (object (readMembers fuel s).1, (readMembers fuel s).2) := by
  rw [readValue, skipGap_cons rfl]
  simp only [hfirst]
  rw [← readMembers_skipGap, hfirst]
  split
  · exact absurd (List.cons.inj ‹_›).1 hc
  · rfl

/-- The text of an array that is not empty has its first item after the bracket. -/
theorem Legible.skipGap_prettyItems {j : Json} (h : Legible j) (more : List Json) (level : Nat)
    (rest : List Char) : ∃ c s, skipGap (prettyItems level (j :: more) ++ rest) = c :: s ∧
      c ≠ ']' := by
  obtain ⟨c, s, hj, hc⟩ := h.exists_cons level
  have hgap : isGap c = false ∧ c ≠ ']' := by
    rcases hc with rfl | rfl | rfl <;> decide
  by_cases hmore : more = []
  · subst hmore
    rw [prettyItems_single, List.append_assoc, skipGap_newLine, hj]
    exact ⟨c, s ++ rest, skipGap_cons hgap.1 _, hgap.2⟩
  · rw [prettyItems_cons _ _ hmore, List.append_assoc, skipGap_newLine, hj]
    exact ⟨c, _, skipGap_cons hgap.1 _, hgap.2⟩

theorem skipGap_prettyMembers (m : String × Json) (more : List (String × Json)) (level : Nat)
    (rest : List Char) :
    ∃ s, skipGap (prettyMembers level (named (m :: more)) ++ rest) = '\x22' :: s := by
  by_cases hmore : more = []
  · subst hmore
    rw [prettyMembers_single, List.append_assoc, skipGap_newLine]
    exact ⟨_, skipGap_cons rfl _⟩
  · rw [prettyMembers_cons _ _ hmore, List.append_assoc, skipGap_newLine]
    exact ⟨_, skipGap_cons rfl _⟩

theorem readsBack_array {items : List Json} (h : ∀ j ∈ items, Legible j)
    (ih : ∀ j ∈ items, ReadsBack j) : ReadsBack (.array items) := by
  intro level fuel rest hfuel
  cases items with
  | nil =>
    have htext : (array []).prettyChars level = ['[', ']'] := by rw [prettyChars]
    rw [htext] at hfuel ⊢
    obtain ⟨fuel, rfl⟩ : ∃ n, fuel = n + 1 := Nat.exists_eq_succ_of_ne_zero (by
      rintro rfl
      cases hfuel)
    rw [List.cons_append, readValue, skipGap_cons rfl]
    simp only [List.cons_append, List.nil_append, skipGap_cons (c := ']') rfl]
  | cons j more =>
    have htext : (array (j :: more)).prettyChars level =
        '[' :: (prettyItems (level + 1) (j :: more) ++ (newLine level ++ [']'])) := by
      rw [prettyChars]
      · simp
      · simp
    rw [htext, List.length_cons, List.length_append] at hfuel
    obtain ⟨fuel, rfl⟩ : ∃ n, fuel = n + 1 := Nat.exists_eq_succ_of_ne_zero (by omega)
    have hitems := readItems_prettyItems (List.cons_ne_nil j more) ih (level + 1) level fuel rest
      (by omega)
    obtain ⟨c, s, hfirst, hc⟩ := (h j List.mem_cons_self).skipGap_prettyItems more (level + 1)
      (newLine level ++ ']' :: rest)
    rw [htext, List.cons_append, List.append_assoc, List.append_assoc, List.singleton_append,
      readValue_bracket hfirst hc, hitems]

theorem readsBack_record {members : List (String × Json)} (ih : ∀ m ∈ members, ReadsBack m.2) :
    ReadsBack (.record members) := by
  intro level fuel rest hfuel
  cases members with
  | nil =>
    have htext : (record []).prettyChars level = ['\x7b', '\x7d'] := by
      rw [record, List.map_nil, prettyChars]
    rw [htext] at hfuel ⊢
    obtain ⟨fuel, rfl⟩ : ∃ n, fuel = n + 1 := Nat.exists_eq_succ_of_ne_zero (by
      rintro rfl
      cases hfuel)
    rw [List.cons_append, readValue, skipGap_cons rfl]
    simp only [List.cons_append, List.nil_append, skipGap_cons (c := '}') rfl]
    rfl
  | cons m more =>
    have htext : (record (m :: more)).prettyChars level =
        '{' :: (prettyMembers (level + 1) (named (m :: more)) ++ (newLine level ++ ['}'])) := by
      rw [record, prettyChars]
      · simp [named]
      · simp
    rw [htext, List.length_cons, List.length_append] at hfuel
    obtain ⟨fuel, rfl⟩ : ∃ n, fuel = n + 1 := Nat.exists_eq_succ_of_ne_zero (by omega)
    have hmembers := readMembers_prettyMembers (List.cons_ne_nil m more) ih (level + 1) level fuel
      rest (by omega)
    obtain ⟨s, hfirst⟩ := skipGap_prettyMembers m more (level + 1) (newLine level ++ '}' :: rest)
    rw [htext, List.cons_append, List.append_assoc, List.append_assoc, List.singleton_append,
      readValue_brace hfirst (by decide), hmembers]
    rfl

/-- A tree of strings, arrays and records reads back, whatever follows it. -/
theorem Legible.readsBack {j : Json} (h : Legible j) : ReadsBack j := by
  induction h with
  | str s => exact readsBack_str s
  | array h ih => exact readsBack_array h ih
  | record _ ih => exact readsBack_record ih

/-- The whole text of such a tree is read, and nothing is left. -/
theorem Legible.read_pretty {j : Json} (h : Legible j) : read j.pretty = (j, true) := by
  have hread := h.readsBack 0 (2 * (j.prettyChars 0).length + 1) [] (by omega)
  rw [List.append_nil] at hread
  simp only [read, pretty, String.toList_ofList, hread]
  rfl

end Federation.Json
