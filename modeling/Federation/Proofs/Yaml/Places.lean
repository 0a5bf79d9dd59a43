import Federation.Yaml.Printer
import Federation.Yaml.Token
import Mathlib.Data.String.Basic

/-!
# Places of printed text

Everything that is printed is printable: each character has one place, and only line breaks begin
new lines. A reader sees a blank, a line break or the end exactly where a printer meant one.
-/

namespace Federation.Yaml

variable {c : Char} {cs rest : List Char}

/-! ### Printable characters -/

/-- A text that needs no escapes. -/
def Printable (cs : List Char) : Prop :=
  ∀ c ∈ cs, isPrintable c = true

theorem printable_nil : Printable [] :=
  List.forall_mem_nil _

theorem printable_cons : Printable (c :: rest) ↔ isPrintable c = true ∧ Printable rest :=
  List.forall_mem_cons

theorem printable_append : Printable (cs ++ rest) ↔ Printable cs ∧ Printable rest :=
  List.forall_mem_append

theorem ne_of_isPrintable {d : Char} (h : isPrintable c = true) (hd : isPrintable d = false) :
    c ≠ d := by
  rintro rfl
  rw [hd] at h
  cases h

theorem isReadable_of_isPrintable (h : isPrintable c = true) : isReadable c = true := by
  simp only [isPrintable, Bool.or_eq_true, Bool.and_eq_true, beq_iff_eq, decide_eq_true_eq] at h
  simp only [isReadable, Bool.or_eq_true, Bool.and_eq_true, beq_iff_eq, decide_eq_true_eq]
  omega

theorem isEnd_of_isPrintable (h : isPrintable c = true) : isEnd c = false :=
  decide_eq_false (ne_of_isPrintable h (by decide))

theorem isBlank_of_isPrintable (h : isPrintable c = true) : isBlank c = isSpace c := by
  have tab : c ≠ '\t' := ne_of_isPrintable h (by decide)
  simp [isBlank, isSpace, tab]

theorem isBreak_of_isPrintable (h : isPrintable c = true) : isBreak c = breaksLine c := by
  have carriageReturn : c ≠ '\r' := ne_of_isPrintable h (by decide)
  have nextLine : c ≠ '\u0085' := ne_of_isPrintable h (by decide)
  simp [isBreak, breaksLine, carriageReturn, nextLine]

theorem isGap_of_isPrintable (h : isPrintable c = true) :
    isGap c = (isSpace c || breaksLine c) := by
  rw [isGap, isBreakOrEnd, isBlank_of_isPrintable h, isBreak_of_isPrintable h,
    isEnd_of_isPrintable h, Bool.or_false]

theorem separates_of_isPrintable (h : isPrintable c = true) : separates c = isGap c := by
  have tab : c ≠ '\t' := ne_of_isPrintable h (by decide)
  have null : c ≠ '\x00' := ne_of_isPrintable h (by decide)
  rw [isGap_of_isPrintable h]
  simp [separates, isSpace, tab, null]

theorem printable_indentation (n : Nat) : Printable (indentation n) := by
  intro c hc
  rw [List.eq_of_mem_replicate hc]
  decide

theorem printable_linesAt {column : Nat} {render : Char → List Char} {newLine : Bool}
    (hrender : ∀ c, isPrintable c = true → Printable (render c)) (hcs : Printable cs) :
    Printable (linesAt column render newLine cs) := by
  induction cs generalizing newLine with
  | nil => exact printable_nil
  | cons c cs ih =>
    obtain ⟨hc, hcs⟩ := printable_cons.1 hcs
    rw [linesAt]
    split
    · exact printable_cons.2 ⟨hc, ih hcs⟩
    · refine printable_append.2 ⟨printable_append.2 ⟨?_, hrender c hc⟩, ih hcs⟩
      split
      · exact printable_indentation column
      · exact printable_nil

theorem isSpace_of_breaksLine (h : breaksLine c = true) : isSpace c = false := by
  refine decide_eq_false ?_
  rintro rfl
  exact absurd h (by decide)

/-! ### Places -/

/-- Where a character stands: the octets and lines before it, and its column. -/
structure Spot where
  index : Nat
  line : Nat
  column : Nat

namespace Spot

/-- The place after a character. -/
def next (p : Spot) (c : Char) : Spot :=
  if breaksLine c then ⟨p.index + c.utf8Size, p.line + 1, 0⟩
  else ⟨p.index + c.utf8Size, p.line, p.column + 1⟩

/-- The place after a text. -/
def past (p : Spot) (cs : List Char) : Spot :=
  cs.foldl next p

variable {p : Spot}

theorem next_break (h : breaksLine c = true) :
    p.next c = ⟨p.index + c.utf8Size, p.line + 1, 0⟩ :=
  if_pos h

theorem next_char (h : breaksLine c = false) :
    p.next c = ⟨p.index + c.utf8Size, p.line, p.column + 1⟩ :=
  if_neg (ne_true_of_eq_false h)

@[simp] theorem past_nil : p.past [] = p :=
  rfl

@[simp] theorem past_cons : p.past (c :: rest) = (p.next c).past rest :=
  rfl

theorem past_append : p.past (cs ++ rest) = (p.past cs).past rest :=
  List.foldl_append

/-- A text without line breaks only moves along its line. -/
theorem past_eq (h : cs.any breaksLine = false) :
    p.past cs = ⟨p.index + String.utf8Len cs, p.line, p.column + cs.length⟩ := by
  induction cs generalizing p with
  | nil => rfl
  | cons c rest ih =>
    rw [List.any_cons, Bool.or_eq_false_iff] at h
    rw [past_cons, ih h.2, next_char h.1, String.utf8Len_cons, List.length_cons]
    simp only [mk.injEq, true_and]
    omega

theorem line_le_past (p : Spot) (cs : List Char) : p.line ≤ (p.past cs).line := by
  induction cs generalizing p with
  | nil => exact le_rfl
  | cons c rest ih =>
    have hnext : p.line ≤ (p.next c).line := by
      unfold next
      split
      · exact Nat.le_succ _
      · exact le_rfl
    exact hnext.trans (ih _)

theorem past_indentation (n : Nat) :
    p.past (indentation n) = ⟨p.index + n, p.line, p.column + n⟩ := by
  induction n generalizing p with
  | zero => rfl
  | succ n ih =>
    have hsucc : indentation (n + 1) = ' ' :: indentation n := rfl
    have hnext : p.next ' ' = ⟨p.index + 1, p.line, p.column + 1⟩ := next_char (by decide)
    rw [hsucc, past_cons, ih, hnext]
    simp only [mk.injEq, true_and]
    omega

theorem column_newLine (h : breaksLine c = true) (n : Nat) :
    ((p.next c).past (indentation n)).column = n := by
  rw [past_indentation, next_break h, Nat.zero_add]

end Spot

variable {p : Spot}

/-- The placed characters of a text that begins somewhere. -/
def placed (p : Spot) (cs : List Char) : List Glyph :=
  place p.index p.line p.column cs

theorem placed_cons (h : isPrintable c = true) :
    placed p (c :: rest) = ⟨c, p.index, p.line, p.column⟩ :: placed (p.next c) rest := by
  have hbreak : isBreak c = breaksLine c := isBreak_of_isPrintable h
  have carriageReturn : c ≠ '\r' := ne_of_isPrintable h (by decide)
  have nextLine : c ≠ '\u0085' := ne_of_isPrintable h (by decide)
  rw [placed, place.eq_3 _ _ _ _ _ fun _ hc => absurd hc carriageReturn, hbreak]
  cases hb : breaksLine c with
  | true =>
    rw [Spot.next_break hb]
    by_cases lineFeed : c = '\n'
    · rw [if_pos (.inr (.inl lineFeed)), lineFeed]
      rfl
    · rw [if_neg]
      · rfl
      · simp [carriageReturn, lineFeed, nextLine]
  | false =>
    have lineFeed : c ≠ '\n' := by
      rintro rfl
      exact absurd hb (by decide)
    rw [Spot.next_char hb, if_neg]
    · rfl
    · simp [carriageReturn, lineFeed, nextLine]

theorem placed_nil : placed p [] = [⟨'\x00', p.index, p.line, p.column⟩] :=
  rfl

theorem length_placed (h : Printable cs) : (placed p cs).length = cs.length + 1 := by
  induction cs generalizing p with
  | nil => rfl
  | cons c rest ih =>
    obtain ⟨hc, hrest⟩ := printable_cons.1 h
    rw [placed_cons hc, List.length_cons, ih hrest, List.length_cons]

theorem glyphs?_ofList (h : Printable cs) :
    glyphs? (String.ofList cs) = some (placed ⟨0, 0, 0⟩ cs) := by
  have readable : cs.all isReadable = true :=
    List.all_eq_true.2 fun c hc => isReadable_of_isPrintable (h c hc)
  simp only [glyphs?, String.toList_ofList, readable, if_true]
  rfl

/-! ### The characters ahead -/

theorem charAt_cons (g : Glyph) (gs : List Glyph) (k : Nat) :
    charAt (g :: gs) (k + 1) = charAt gs k := by
  simp only [charAt, List.getElem?_cons_succ]

/-- The first character of a text; the end, if there is none. -/
def ahead (cs : List Char) : Char :=
  cs.headD '\x00'

theorem charAt_placed (h : Printable cs) : charAt (placed p cs) 0 = ahead cs := by
  cases cs with
  | nil => rfl
  | cons c rest =>
    rw [placed_cons (h c List.mem_cons_self)]
    rfl

theorem charAt_placed_getD (h : Printable cs) (n : Nat) :
    charAt (placed p cs) n = cs.getD n '\x00' := by
  induction cs generalizing p n with
  | nil => cases n <;> rfl
  | cons c rest ih =>
    obtain ⟨hc, hrest⟩ := printable_cons.1 h
    rw [placed_cons hc]
    cases n with
    | zero => rfl
    | succ n => rw [charAt_cons, ih hrest, List.getD_cons_succ]

theorem isGap_ahead (h : Printable cs) : isGap (ahead cs) = separated cs := by
  cases cs with
  | nil => rfl
  | cons c rest => exact (separates_of_isPrintable (h c List.mem_cons_self)).symm

end Federation.Yaml
