/-!
# Blank text

White space is the Unicode property `White_Space`. A text is blank when it holds white space
only; trimming removes white space at both ends and nothing in between.
-/

namespace Federation.Text

/-- The characters with the Unicode property `White_Space`. -/
def isSpace (c : Char) : Bool :=
  let n := c.toNat
  (9 ≤ n && n ≤ 13) || n == 0x20 || n == 0x85 || n == 0xA0 || n == 0x1680 ||
  (0x2000 ≤ n && n ≤ 0x200A) || n == 0x2028 || n == 0x2029 || n == 0x202F || n == 0x205F ||
  n == 0x3000

/-- The characters from the first one on that is not white space. -/
def trimStart (s : List Char) : List Char :=
  s.dropWhile isSpace

/-- The characters up to the last one that is not white space. -/
def trimEnd (s : List Char) : List Char :=
  (s.reverse.dropWhile isSpace).reverse

/-- The text without white space at either end. -/
def trim (s : String) : String :=
  String.ofList (trimEnd (trimStart s.toList))

/-- Whether trimming leaves nothing. -/
def isBlank (s : String) : Bool :=
  s.toList.all isSpace

theorem dropWhile_eq_nil_iff {p : Char → Bool} {s : List Char} :
    s.dropWhile p = [] ↔ s.all p = true := by
  induction s with
  | nil => simp
  | cons c s ih => by_cases h : p c = true <;> simp_all

/-- A text is blank exactly when trimming makes it empty. -/
theorem isBlank_iff_trim_eq_empty {s : String} : isBlank s = true ↔ trim s = "" := by
  have hempty : trim s = "" ↔ trimEnd (trimStart s.toList) = [] := by
    rw [trim, ← String.toList_inj]; simp
  rw [hempty, isBlank, trimEnd, List.reverse_eq_nil_iff, dropWhile_eq_nil_iff,
    List.all_reverse, trimStart]
  constructor
  · intro h
    rw [dropWhile_eq_nil_iff.2 h]; rfl
  · intro h
    have hsplit := List.takeWhile_append_dropWhile (p := isSpace) (l := s.toList)
    rw [← hsplit, List.all_append, h, List.all_takeWhile]
    rfl

theorem isBlank_eq_false_iff {s : String} : isBlank s = false ↔ trim s ≠ "" := by
  rw [← Bool.not_eq_true, isBlank_iff_trim_eq_empty]

theorem trimStart_cons {c : Char} (h : isSpace c = false) (s : List Char) :
    trimStart (c :: s) = c :: s := by
  rw [trimStart, List.dropWhile_cons_of_neg]
  rw [h]
  exact Bool.false_ne_true

theorem trimStart_cases (s : List Char) :
    trimStart s = [] ∨ ∃ c rest, trimStart s = c :: rest ∧ isSpace c = false := by
  have hfirst := List.head?_dropWhile_not isSpace s
  cases htrim : trimStart s with
  | nil => exact Or.inl rfl
  | cons c rest =>
    rw [← trimStart, htrim] at hfirst
    exact Or.inr ⟨c, rest, rfl, hfirst⟩

theorem trimStart_trimStart (s : List Char) : trimStart (trimStart s) = trimStart s := by
  rcases trimStart_cases s with h | ⟨c, rest, h, hc⟩
  · rw [h]
    rfl
  · rw [h, trimStart_cons hc]

theorem trimEnd_trimEnd (s : List Char) : trimEnd (trimEnd s) = trimEnd s := by
  have htrim : ∀ l : List Char, trimEnd l = (trimStart l.reverse).reverse := fun _ => rfl
  rw [htrim, htrim, List.reverse_reverse, trimStart_trimStart]

theorem trimEnd_cons {c : Char} (h : isSpace c = false) (s : List Char) :
    trimEnd (c :: s) = c :: trimEnd s := by
  have hlast : [c].dropWhile isSpace = [c] := trimStart_cons h []
  rw [trimEnd, trimEnd, List.reverse_cons, List.dropWhile_append, hlast]
  split
  · rename_i hempty
    rw [List.isEmpty_iff.1 hempty]
    rfl
  · rw [List.reverse_append]
    rfl

/-- Nothing is left to trim of a trimmed text. -/
theorem trim_trim (s : String) : trim (trim s) = trim s := by
  have hstart : trimStart (trimEnd (trimStart s.toList)) = trimEnd (trimStart s.toList) := by
    rcases trimStart_cases s.toList with h | ⟨c, rest, h, hc⟩
    · rw [h]
      rfl
    · rw [h, trimEnd_cons hc, trimStart_cons hc]
  rw [trim, trim, String.toList_ofList, hstart, trimEnd_trimEnd]

end Federation.Text
