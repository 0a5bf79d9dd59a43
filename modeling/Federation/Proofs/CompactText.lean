import Federation.Json.Printer
import Federation.Proofs.JsonReading

/-!
# Compact JSON text

A tree in the compact layout is spelt by the rules of JSON, whatever characters its strings hold. It
is therefore read back as it was, and different trees have different texts.
-/

namespace Federation.Json

/-! ### Strings and numbers -/

/-- A string between quotes stands for itself. -/
theorem stringText_quote (s : String) : StringText (some s) (quote s.toList) := by
  obtain ⟨body, hbody, heq⟩ :=
    exists_body_of_stringUnits? (stringUnits?_flatMap_escape s.toList [])
  obtain rfl : s.toList.flatMap escape = body := List.append_cancel_right heq
  refine ⟨_, _, hbody, rfl, ?_⟩
  rw [unitsText?_map_toNat, Option.map_some, String.ofList_toList]

theorem digitChar_ne_zero : ∀ d < 10, d ≠ 0 → Nat.digitChar d ≠ '0' := by
  decide

/-- No number but zero begins with a zero. -/
theorem head?_toDigits {n : Nat} (h : n ≠ 0) : (Nat.toDigits 10 n).head? ≠ some '0' := by
  induction n using Nat.strongRecOn with
  | ind n ih =>
    by_cases hlt : n < 10
    · rw [Nat.toDigits_of_lt_base hlt]
      exact fun heq => digitChar_ne_zero n hlt h (Option.some.inj heq)
    · have hdiv : n / 10 ≠ 0 := by omega
      rw [Nat.toDigits_of_base_le (by decide) (by omega),
        List.head?_append_of_ne_nil _ Nat.toDigits_ne_nil]
      exact ih (n / 10) (by omega) hdiv

theorem wholeText_toDigits (n : Nat) : WholeText (Nat.toDigits 10 n) where
  digits := ⟨Nat.toDigits_ne_nil, fun _ hc =>
    Nat.isDigit_of_mem_toDigits (by decide) (by decide) hc⟩
  leading h := by
    by_cases hzero : n = 0
    · rw [hzero]
      rfl
    · exact absurd h (head?_toDigits hzero)

theorem numberText_toString (n : Int) : NumberText (toString n).toList := by
  cases n with
  | ofNat n =>
    have htext : (toString (Int.ofNat n)).toList = [] ++ (Nat.toDigits 10 n ++ ([] ++ [])) := by
      simp [toString, Int.repr]
    rw [htext]
    exact .parts (Or.inl rfl) (wholeText_toDigits n) .absent .absent
  | negSucc n =>
    have htext : (toString (Int.negSucc n)).toList =
        ['-'] ++ (Nat.toDigits 10 (n + 1) ++ ([] ++ [])) := by
      simp [toString, Int.repr]
    rw [htext]
    exact .parts (Or.inr rfl) (wholeText_toDigits (n + 1)) .absent .absent

/-! ### Trees -/

/-- Trees in which every string has a text and every number is spelt as one. -/
inductive Writable : Json → Prop where
  | null : Writable .null
  | bool (b : Bool) : Writable (.bool b)
  | number {spelling : String} (h : NumberText spelling.toList) : Writable (.number spelling)
  | str (s : String) : Writable (.str s)
  | array {items : List Json} (h : ∀ j ∈ items, Writable j) : Writable (.array items)
  | record {members : List (String × Json)} (h : ∀ m ∈ members, Writable m.2) :
      Writable (.record members)

@[simp] theorem writable_null : Writable .null :=
  .null

@[simp] theorem writable_str (s : String) : Writable (.str s) :=
  .str s

@[simp] theorem writable_array_iff {items : List Json} :
    Writable (.array items) ↔ ∀ j ∈ items, Writable j := by
  constructor
  · rintro ⟨⟩
    assumption
  · exact .array

@[simp] theorem writable_record_iff {members : List (String × Json)} :
    Writable (.record members) ↔ ∀ m ∈ members, Writable m.2 := by
  constructor
  · intro h
    generalize hrecord : record members = j at h
    cases h with
    | record h =>
      have hmembers := Json.object.inj hrecord
      rw [List.map_inj_right fun m m' heq => ?_] at hmembers
      · exact hmembers ▸ h
      · obtain ⟨hname, hvalue⟩ := Prod.mk.inj heq
        exact Prod.ext (Option.some.inj hname) hvalue
    | _ => cases hrecord
  · exact .record

theorem gap_nil : Gap [] :=
  fun _ hc => nomatch hc

/-- Gaps may be left out. -/
theorem padded_of {P : List Char → Prop} {s : List Char} (h : P s) : Padded P s :=
  ⟨[], s, [], gap_nil, h, gap_nil, (List.append_nil s).symm⟩

theorem spellsItems_compactItems {items : List Json}
    (h : ∀ j ∈ items, Spells j j.compactChars) : SpellsItems items (compactItems items) := by
  induction items with
  | nil => exact gap_nil
  | cons j more ih =>
    have hj := padded_of (h j List.mem_cons_self)
    cases more with
    | nil => exact hj
    | cons k more =>
      exact ⟨_, _, hj, ih fun i hi => h i (List.mem_cons_of_mem _ hi), rfl⟩

theorem spellsMembers_compactMembers {members : List (String × Json)}
    (h : ∀ m ∈ members, Spells m.2 m.2.compactChars) :
    SpellsMembers (named members) (compactMembers (named members)) := by
  induction members with
  | nil => exact gap_nil
  | cons m more ih =>
    obtain ⟨k, j⟩ := m
    have hk := padded_of (stringText_quote k)
    have hj : Padded (Spells j) j.compactChars := padded_of (h (k, j) List.mem_cons_self)
    cases more with
    | nil => exact ⟨_, _, hk, hj, rfl⟩
    | cons n more =>
      refine ⟨_, _, _, hk, hj, ih fun i hi => h i (List.mem_cons_of_mem _ hi), ?_⟩
      simp [named, compactMembers, atom]

/-- The compact layout of a tree spells it. -/
theorem Writable.spells {j : Json} (h : Writable j) : Spells j j.compactChars := by
  induction h with
  | null => rfl
  | bool b => cases b <;> rfl
  | number h => exact ⟨rfl, h⟩
  | str s => exact stringText_quote s
  | array _ ih => exact ⟨_, spellsItems_compactItems ih, rfl⟩
  | record _ ih => exact ⟨_, spellsMembers_compactMembers ih, rfl⟩

theorem Writable.denotes_compact {j : Json} (h : Writable j) : Denotes j.compact j := by
  rw [Denotes, compact, String.toList_ofList]
  exact padded_of h.spells

/-- A text denotes no more than one tree. -/
theorem Denotes.unique {s : String} {j j' : Json} (h : Denotes s j) (h' : Denotes s j') :
    j = j' :=
  (Prod.mk.inj ((read_of_denotes h).symm.trans (read_of_denotes h'))).1

/-- Different trees have different texts. -/
theorem compact_inj {j j' : Json} (h : Writable j) (h' : Writable j') :
    j.compact = j'.compact ↔ j = j' := by
  refine ⟨fun heq => ?_, congrArg compact⟩
  have hdenotes := h.denotes_compact
  rw [heq] at hdenotes
  exact hdenotes.unique h'.denotes_compact

end Federation.Json
