import Federation.Proofs.Yaml.Plain
import Mathlib.Data.List.Chain

/-!
# Quoted scalars read back

A text between quotes is read as it was: blanks and line breaks inside it come out of the folding as
they went in, and escapes stand for the characters that they show.
-/

namespace Federation.Yaml

variable {c : Char} {cs rest tail : List Char} {p : Spot}

/-- What stands for a text is not much longer, if what stands for its characters is not. -/
theorem utf8Len_flatMap_le {render : Char → List Char} {n : Nat}
    (h : ∀ c, String.utf8Len (render c) ≤ n * c.utf8Size) (cs : List Char) :
    String.utf8Len (cs.flatMap render) ≤ n * String.utf8Len cs := by
  induction cs with
  | nil => rfl
  | cons c cs ih =>
    rw [List.flatMap_cons, String.utf8Len_append, String.utf8Len_cons, Nat.mul_add]
    have := h c
    omega

/-! ### Scalars between single quotes -/

section Single

variable {pause : Pause}

theorem singleQuoted?_space : singleQuoted? pause (placed p (' ' :: rest)) =
    singleQuoted? (pause.addBlank ' ') (placed (p.next ' ') rest) := by
  rw [placed_cons (by decide), singleQuoted?.eq_def]
  rfl

theorem singleQuoted?_break (hc : isPrintable c = true) (h : breaksLine c = true) :
    singleQuoted? pause (placed p (c :: rest)) =
      singleQuoted? (pause.addBreak c) (placed (p.next c) rest) := by
  rw [placed_cons hc, singleQuoted?.eq_def]
  simp [isBlank_of_isPrintable hc, isSpace_of_breaksLine h, isBreak_of_isPrintable hc, h]

/-- Indentation after a line break does not count. -/
theorem singleQuoted?_indentation (h : pause.hasBreak = true) (n : Nat) :
    singleQuoted? pause (placed p (indentation n ++ rest)) =
      singleQuoted? pause (placed (p.past (indentation n)) rest) := by
  refine pass_indentation (singleQuoted? pause) (fun p rest => ?_) n
  rw [singleQuoted?_space, Pause.addBlank, if_pos h]

theorem isDocumentMark_of_column {g : Glyph} {gs : List Glyph} (h : 0 < g.column) :
    isDocumentMark (g :: gs) = false := by
  rw [isDocumentMark]
  simp [h.ne']

/-- A character that counts is read from what stands for it. -/
theorem singleQuoted?_render (hc : isPrintable c = true) (hspace : isSpace c = false)
    (hbreak : breaksLine c = false) (hcolumn : 0 < p.column) :
    singleQuoted? pause (placed p (singleChar c ++ rest)) =
      (singleQuoted? {} (placed (p.past (singleChar c)) rest)).map
        fun (ds, r) => (pause.fold ++ c :: ds, r) := by
  by_cases hquote : c = '\x27'
  · subst hquote
    have hrender : singleChar '\x27' = ['\x27', '\x27'] := rfl
    rw [hrender]
    simp only [List.cons_append, List.nil_append, Spot.past_cons, Spot.past_nil]
    rw [placed_cons (by decide), placed_cons (by decide), singleQuoted?.eq_def]
    simp [isBlank, isBreak, isEnd, isDocumentMark_of_column, hcolumn]
  · have hrender : singleChar c = [c] := if_neg hquote
    rw [hrender]
    simp only [List.cons_append, List.nil_append, Spot.past_cons, Spot.past_nil]
    rw [placed_cons hc, singleQuoted?.eq_def]
    simp [isBlank_of_isPrintable hc, isBreak_of_isPrintable hc, isEnd_of_isPrintable hc, hspace,
      hbreak, isDocumentMark_of_column, hcolumn, hquote]

theorem singleQuoted?_end (hcolumn : 0 < p.column) (hrest : Printable rest)
    (h : ahead rest ≠ '\x27') :
    singleQuoted? pause (placed p ('\x27' :: rest)) =
      some (pause.fold, placed (p.next '\x27') rest) := by
  rw [placed_cons (by decide), singleQuoted?.eq_def]
  cases rest with
  | nil =>
    rw [placed_nil]
    simp [isBlank, isBreak, isEnd, isDocumentMark_of_column, hcolumn]
  | cons d rest =>
    have hd : d ≠ '\x27' := h
    rw [placed_cons (hrest d List.mem_cons_self)]
    simp [isBlank, isBreak, isEnd, isDocumentMark_of_column, hcolumn, hd]

/-- Two characters that follow each other, of which one is a space and one a line break. -/
def Meet (a b : Char) : Prop :=
  (isSpace a = true ∧ breaksLine b = true) ∨ (breaksLine a = true ∧ isSpace b = true)

theorem hasPair_eq_false_iff {f g : Char → Bool} :
    hasPair f g cs = false ↔ cs.IsChain fun a b => ¬(f a = true ∧ g b = true) := by
  induction cs with
  | nil => simp [hasPair]
  | cons a cs ih =>
    cases cs with
    | nil => simp [hasPair]
    | cons b cs =>
      rw [hasPair, List.isChain_cons_cons, Bool.or_eq_false_iff, ih]
      simp

theorem printable_of_singleAllowed (h : singleAllowed cs = true) : Printable cs := by
  simp only [singleAllowed, Bool.and_eq_true, Bool.not_eq_true'] at h
  exact printable_of_needsEscape h.1

theorem apart_of_singleAllowed (h : singleAllowed cs = true) :
    cs.IsChain fun a b => ¬ Meet a b := by
  simp only [singleAllowed, needsEscape, Bool.and_eq_true, Bool.not_eq_true',
    Bool.or_eq_false_iff] at h
  obtain ⟨⟨-, hspace⟩, hbreak⟩ := h
  rw [hasPair_eq_false_iff, List.isChain_iff_getElem] at hspace hbreak
  refine List.isChain_iff_getElem.2 fun i hi => ?_
  exact not_or.2 ⟨hspace i hi, hbreak i hi⟩

theorem eq_nil_of_meet {cs' : List Char} (apart : (cs ++ c :: cs').IsChain fun a b => ¬ Meet a b)
    (h : ∀ a ∈ cs, Meet a c) : cs = [] := by
  rcases cs.eq_nil_or_concat with rfl | ⟨cs, a, rfl⟩
  · rfl
  · rw [List.concat_eq_append] at apart h
    exact absurd (h a (by simp)) ((List.isChain_append.1 apart).2.2 a (by simp) c rfl)

/-- What a pause holds of a text: spaces, or line breaks of which the first is no line feed. Neither
is changed by folding. -/
inductive Holds : Pause → List Char → Prop
  | spaces {held : List Char} (spaces : ∀ c ∈ held, isSpace c = true) :
      Holds { blanks := held } held
  | breaks {held : List Char} (breaks : ∀ c ∈ held, breaksLine c = true) (nonempty : held ≠ [])
      (lineFeed : '\n' ∉ held) : Holds { breaks := held } held

theorem holds_empty : Holds {} [] :=
  .spaces (List.forall_mem_nil _)

theorem fold_of_holds (h : Holds pause cs) : pause.fold = cs := by
  cases h with
  | spaces spaces => rfl
  | breaks breaks nonempty lineFeed =>
    cases cs with
    | nil => rfl
    | cons b cs =>
      have hb : b ≠ '\n' := fun hb => lineFeed (hb ▸ List.mem_cons_self)
      simp [Pause.fold, hb]

theorem endsLine_append (cs cs' : List Char) (hc : breaksLine c = false) :
    endsLine (cs ++ c :: cs') = endsLine cs' := by
  cases cs' with
  | nil => simp [endsLine, hc]
  | cons d cs' =>
    have hlast : (cs ++ c :: d :: cs').getLast? = (d :: cs').getLast? := by
      simp [List.getLast?_append, List.getLast?_cons]
    rw [endsLine, endsLine, hlast]

theorem endsLine_concat (cs : List Char) (c : Char) : endsLine (cs ++ [c]) = breaksLine c := by
  simp [endsLine]

theorem hasBreak_of_holds (h : Holds pause cs) : pause.hasBreak = endsLine cs := by
  rcases cs.eq_nil_or_concat with rfl | ⟨cs, a, rfl⟩
  · cases h with
    | spaces spaces => rfl
    | breaks breaks nonempty lineFeed => exact absurd rfl nonempty
  · rw [List.concat_eq_append] at *
    rw [endsLine_concat]
    cases h with
    | spaces spaces =>
      obtain rfl : a = ' ' := of_decide_eq_true (spaces a (by simp))
      rfl
    | breaks breaks nonempty lineFeed =>
      rw [breaks a (by simp), Pause.hasBreak]
      simp

theorem addBreak_of_holds (h : Holds pause cs) (hc : breaksLine c = true) (lineFeed : c ≠ '\n')
    (apart : (cs ++ c :: rest).IsChain fun a b => ¬ Meet a b) :
    Holds (pause.addBreak c) (cs ++ [c]) := by
  cases h with
  | spaces spaces =>
    obtain rfl := eq_nil_of_meet apart fun a ha => .inl ⟨spaces a ha, hc⟩
    exact .breaks (List.forall_mem_singleton.2 hc) (List.cons_ne_nil _ _)
      (by simpa using Ne.symm lineFeed)
  | breaks breaks nonempty noLineFeed =>
    refine .breaks ?_ (by simp) (by simp [noLineFeed, Ne.symm lineFeed])
    exact List.forall_mem_append.2 ⟨breaks, List.forall_mem_singleton.2 hc⟩

theorem addBlank_of_holds (h : Holds pause cs)
    (apart : (cs ++ ' ' :: rest).IsChain fun a b => ¬ Meet a b) :
    Holds (pause.addBlank ' ') (cs ++ [' ']) ∧ pause.hasBreak = false := by
  cases h with
  | spaces spaces =>
    exact ⟨.spaces (List.forall_mem_append.2 ⟨spaces, List.forall_mem_singleton.2 rfl⟩), rfl⟩
  | breaks breaks nonempty lineFeed =>
    exact absurd (eq_nil_of_meet apart fun a ha => .inr ⟨breaks a ha, rfl⟩) nonempty

/-- The end of a text between quotes. -/
def closing (column : Nat) (cs : List Char) : List Char :=
  (if endsLine cs then indentation column else []) ++ ['\x27']

theorem singleQuoted?_margin {column : Nat} {newLine : Bool} (h : pause.hasBreak = newLine) :
    singleQuoted? pause (placed p ((if newLine then indentation column else []) ++ rest)) =
      singleQuoted? pause
        (placed (p.past (if newLine then indentation column else [])) rest) := by
  cases newLine with
  | true => exact singleQuoted?_indentation h column
  | false => rfl

theorem column_margin {column : Nat} {newLine : Bool} (hcolumn : 0 < column)
    (h : newLine = false → 0 < p.column) :
    0 < (p.past (if newLine then indentation column else [])).column := by
  cases newLine with
  | true =>
    rw [if_pos rfl, Spot.past_indentation]
    exact Nat.add_pos_right _ hcolumn
  | false => exact h rfl

theorem any_singleChar (h : breaksLine c = false) : (singleChar c).any breaksLine = false := by
  unfold singleChar
  split
  · rfl
  · simpa using h

/-- The text between the quotes, of which a pause holds a part, and its end. -/
theorem singleQuoted?_lines {column : Nat} (hcolumn : 0 < column) {held : List Char}
    (hpause : Holds pause held) (hcs : Printable cs) (lineFeed : '\n' ∉ cs)
    (apart : (held ++ cs).IsChain fun a b => ¬ Meet a b)
    (hplace : endsLine held = false → 0 < p.column) (htail : Printable tail)
    (hend : ahead tail ≠ '\x27') :
    singleQuoted? pause (placed p (linesAt column singleChar (endsLine held) cs ++
        (closing column (held ++ cs) ++ tail))) =
      some (held ++ cs, placed (p.past (linesAt column singleChar (endsLine held) cs ++
        closing column (held ++ cs))) tail) := by
  have hnew := hasBreak_of_holds hpause
  have hfold := fold_of_holds hpause
  -- `held` is what the pause keeps back of the characters before; it is given out by the next
  -- character that counts, or by the closing quote
  induction cs generalizing pause held p with
  | nil =>
    simp only [linesAt, List.nil_append, List.append_nil, closing, List.append_assoc]
    rw [singleQuoted?_margin hnew, List.cons_append, List.nil_append,
      singleQuoted?_end (column_margin hcolumn hplace) htail hend, hfold, Spot.past_append]
    rfl
  | cons c rest ih =>
    obtain ⟨hc, hrest⟩ := printable_cons.1 hcs
    rw [List.mem_cons, not_or] at lineFeed
    cases hbreak : breaksLine c with
    | true =>
      have hpause' := addBreak_of_holds hpause hbreak (Ne.symm lineFeed.1) apart
      have hends : endsLine (held ++ [c]) = true := by simp [endsLine, hbreak]
      have hrec := ih (p := p.next c) hpause' hrest lineFeed.2 (by simpa using apart)
        (fun h => absurd (hends.symm.trans h) (by decide)) (hasBreak_of_holds hpause')
        (fold_of_holds hpause')
      rw [hends, List.append_assoc] at hrec
      simp only [linesAt, hbreak, if_true, List.cons_append, Spot.past_cons]
      rw [singleQuoted?_break hc hbreak]
      exact hrec
    | false =>
      simp only [linesAt, hbreak, Bool.false_eq_true, if_false, List.append_assoc]
      rw [singleQuoted?_margin hnew, Spot.past_append]
      have hcolumn' := column_margin hcolumn hplace
      generalize p.past (if endsLine held then indentation column else []) = q at hcolumn' ⊢
      have hnext : 0 < (q.past (singleChar c)).column := by
        rw [Spot.past_eq (any_singleChar hbreak)]
        exact Nat.add_pos_left hcolumn' _
      have hclosing : closing column (held ++ c :: rest) = closing column rest := by
        rw [closing, closing, endsLine_append held rest hbreak]
      by_cases hspace : isSpace c = true
      · obtain rfl : c = ' ' := of_decide_eq_true hspace
        obtain ⟨hpause', hsame⟩ := addBlank_of_holds hpause apart
        have hends : endsLine (held ++ [' ']) = false := endsLine_concat held ' '
        have hrec := ih (p := q.next ' ') hpause' hrest lineFeed.2 (by simpa using apart)
          (fun _ => hnext) (hasBreak_of_holds hpause') (fold_of_holds hpause')
        rw [hends, List.append_assoc] at hrec
        have hrender : singleChar ' ' = [' '] := rfl
        rw [hrender, List.cons_append, List.nil_append, singleQuoted?_space]
        exact hrec
      · have apart' := (List.isChain_append.1 apart).2.1.tail
        have hrec := ih (p := q.past (singleChar c)) holds_empty hrest lineFeed.2 apart'
          (fun _ => hnext) rfl rfl
        rw [singleQuoted?_render hc (eq_false_of_ne_true hspace) hbreak hcolumn', hfold, hclosing,
          Spot.past_append]
        exact congrArg (Option.map _) hrec

/-- A scalar between single quotes holds the text that is written. -/
theorem singleQuoted?_text {column : Nat} (hcolumn : 0 < column) (h : singleAllowed cs = true)
    (lineFeed : '\n' ∉ cs) (htail : Printable tail) (hend : ahead tail ≠ '\x27') :
    singleQuoted? {} ((placed p (singleQuoted column cs ++ tail)).drop 1) =
      some (cs, placed (p.past (singleQuoted column cs)) tail) := by
  have hplace : 0 < (p.next '\x27').column := by
    rw [Spot.next_char (by decide)]
    exact Nat.succ_pos _
  have hprint := printable_of_singleAllowed h
  have hlines := singleQuoted?_lines (p := p.next '\x27') hcolumn holds_empty hprint lineFeed
    (apart_of_singleAllowed h) (fun _ => hplace) htail hend
  have hwritten : singleQuoted column cs =
      '\x27' :: (linesAt column singleChar false cs ++ closing column cs) := by
    rw [singleQuoted, closing, List.cons_append, List.cons_append, List.append_assoc]
  rw [hwritten, List.cons_append, List.append_assoc, placed_cons (by decide)]
  exact hlines

theorem printable_singleChar (h : isPrintable c = true) : Printable (singleChar c) := by
  unfold singleChar
  split
  · exact printable_cons.2 ⟨by decide, printable_cons.2 ⟨by decide, printable_nil⟩⟩
  · exact printable_cons.2 ⟨h, printable_nil⟩

theorem printable_singleQuoted (column : Nat) (h : Printable cs) :
    Printable (singleQuoted column cs) := by
  have hmargin : Printable (if endsLine cs then indentation column else []) := by
    split
    · exact printable_indentation column
    · exact printable_nil
  rw [singleQuoted]
  simp only [printable_append, List.cons_append, printable_cons]
  exact ⟨by decide, ⟨printable_linesAt (fun _ => printable_singleChar) h, hmargin⟩, by decide,
    printable_nil⟩

theorem linesAt_of_oneLine {column : Nat} {render : Char → List Char}
    (h : cs.any breaksLine = false) : linesAt column render false cs = cs.flatMap render := by
  induction cs with
  | nil => rfl
  | cons c cs ih =>
    rw [List.any_cons, Bool.or_eq_false_iff] at h
    simp [linesAt, h.1, ih h.2]

/-- A text of one line is only marked at its quotes. -/
theorem singleQuoted_of_oneLine (column : Nat) (h : cs.any breaksLine = false) :
    singleQuoted column cs = '\x27' :: cs.flatMap singleChar ++ ['\x27'] := by
  have hends : endsLine cs = false := by
    rw [endsLine]
    cases hlast : cs.getLast? with
    | none => rfl
    | some c => exact eq_false_of_ne_true (List.any_eq_false.1 h c (List.mem_of_getLast? hlast))
  rw [singleQuoted, linesAt_of_oneLine h, hends]
  simp

theorem utf8Len_singleChar (c : Char) : String.utf8Len (singleChar c) ≤ 6 * c.utf8Size := by
  unfold singleChar
  split_ifs with h
  · subst h
    decide
  · simp only [String.utf8Len_cons, String.utf8Len_nil]
    omega

end Single

/-! ### Scalars between double quotes -/

section Double

/-- The ways to show a character between double quotes. -/
inductive Shows (c : Char) : List Char → Prop
  | letter {letter : Char} (h : escapeLetter? c = some letter) : Shows c ['\\', letter]
  | self (plain : escapeLetter? c = none) (h : isPrintable c = true) : Shows c [c]
  | two {a b : Char} {x y : Nat} (ha : hexValue? a = some x) (hb : hexValue? b = some y)
      (h : 16 * x + y = c.toNat) : Shows c ['\\', 'x', a, b]
  | four {a b d e : Char} {x y z w : Nat} (ha : hexValue? a = some x) (hb : hexValue? b = some y)
      (hd : hexValue? d = some z) (he : hexValue? e = some w)
      (h : 16 * (16 * (16 * x + y) + z) + w = c.toNat) : Shows c ['\\', 'u', a, b, d, e]

/-- A digit of a hexadecimal number. -/
def hexDigit (n : Nat) : Char :=
  (Nat.digitChar n).toUpper

theorem hexValue?_hexDigit : ∀ n < 16, hexValue? (hexDigit n) = some n := by
  decide

theorem hexText_two : ∀ n < 0x100, hexText 2 n = [hexDigit (n / 16), hexDigit (n % 16)] := by
  decide +kernel

/-- The characters with four digits are the byte order mark and the last two of the first plane. -/
theorem hexText_four : hexText 4 0xFEFF = ['F', 'E', 'F', 'F'] ∧
    hexText 4 0xFFFE = ['F', 'F', 'F', 'E'] ∧ hexText 4 0xFFFF = ['F', 'F', 'F', 'F'] := by
  decide +kernel

theorem shows_doubleChar (c : Char) : Shows c (doubleChar c) := by
  unfold doubleChar
  split
  · rename_i letter h
    exact .letter h
  · rename_i h
    split_ifs with printable hlow hplane
    · exact .self h printable
    · rw [hexText_two _ (Nat.lt_succ_of_le hlow)]
      exact .two (hexValue?_hexDigit _ (by omega)) (hexValue?_hexDigit _ (by omega)) (by omega)
    · have hcode : c.toNat = 0xFEFF ∨ c.toNat = 0xFFFE ∨ c.toNat = 0xFFFF := by
        simp only [isPrintable, Bool.or_eq_true, Bool.and_eq_true, beq_iff_eq,
          decide_eq_true_eq] at printable
        omega
      obtain ⟨hmark, hlast, hlast'⟩ := hexText_four
      rcases hcode with hc | hc | hc
      · rw [hc, hmark]
        exact .four rfl rfl rfl rfl hc.symm
      · rw [hc, hlast]
        exact .four rfl rfl rfl rfl hc.symm
      · rw [hc, hlast']
        exact .four rfl rfl rfl rfl hc.symm
    · simp only [isPrintable, Bool.or_eq_true, decide_eq_true_eq, not_or] at printable
      omega

theorem escaped?_escapeLetter {letter : Char} (h : escapeLetter? c = some letter) :
    escaped? letter = some c ∧ isPrintable letter = true ∧ isBreak letter = false ∧
      letter ≠ 'x' ∧ letter ≠ 'u' ∧ letter ≠ 'U' := by
  unfold escapeLetter? at h
  split at h <;> cases h <;> decide

theorem utf8Size_escapeLetter {letter : Char} (h : escapeLetter? c = some letter) :
    letter.utf8Size = 1 := by
  unfold escapeLetter? at h
  split at h <;> cases h <;> rfl

theorem toNat_of_hexValue {n : Nat} (h : hexValue? c = some n) :
    0x30 ≤ c.toNat ∧ c.toNat ≤ 0x66 := by
  unfold hexValue? at h
  split_ifs at h with hdigit hlower hupper
  · have hlow : 0x30 ≤ c.toNat := hdigit.1
    have hhigh : c.toNat ≤ 0x39 := hdigit.2
    omega
  · have hlow : 0x61 ≤ c.toNat := hlower.1
    have hhigh : c.toNat ≤ 0x66 := hlower.2
    omega
  · have hlow : 0x41 ≤ c.toNat := hupper.1
    have hhigh : c.toNat ≤ 0x46 := hupper.2
    omega

theorem isPrintable_of_hexValue {n : Nat} (h : hexValue? c = some n) :
    isPrintable c = true ∧ breaksLine c = false := by
  have hcode := toNat_of_hexValue h
  have apart : ∀ d : Char, ¬(0x30 ≤ d.toNat ∧ d.toNat ≤ 0x66) → c ≠ d := by
    rintro d hd rfl
    exact hd hcode
  constructor
  · simp only [isPrintable, Bool.or_eq_true, Bool.and_eq_true, decide_eq_true_eq]
    omega
  · simp [breaksLine, apart]

theorem utf8Size_of_hexValue {n : Nat} (h : hexValue? c = some n) : c.utf8Size = 1 := by
  have hcode : c.toNat ≤ 0x7F := (toNat_of_hexValue h).2.trans (by decide)
  exact Char.utf8Size_eq_one_iff.2 hcode

theorem escapeLetter?_of_breaksLine (h : breaksLine c = true) : (escapeLetter? c).isSome := by
  simp only [breaksLine, Bool.or_eq_true, decide_eq_true_eq, or_assoc] at h
  rcases h with rfl | rfl | rfl | rfl | rfl <;> rfl

/-- What shows a character is printable and stands on one line. -/
theorem printable_of_shows (h : Shows c cs) :
    ∀ d ∈ cs, isPrintable d = true ∧ breaksLine d = false := by
  have hfixed : ∀ d ∈ ['\\', 'x', 'u'], isPrintable d = true ∧ breaksLine d = false :=
    List.forall_mem_cons.2 ⟨by decide, List.forall_mem_cons.2 ⟨by decide,
      List.forall_mem_singleton.2 (by decide)⟩⟩
  cases h with
  | letter h =>
    obtain ⟨-, hprint, hbreak, -⟩ := escaped?_escapeLetter h
    rw [isBreak_of_isPrintable hprint] at hbreak
    exact List.forall_mem_cons.2 ⟨hfixed _ (by simp), List.forall_mem_singleton.2 ⟨hprint, hbreak⟩⟩
  | self plain h =>
    refine List.forall_mem_singleton.2 ⟨h, eq_false_of_ne_true fun hbreak => ?_⟩
    have := escapeLetter?_of_breaksLine hbreak
    rw [plain] at this
    cases this
  | two ha hb h =>
    simp only [List.forall_mem_cons]
    exact ⟨hfixed _ (by simp), hfixed _ (by simp), isPrintable_of_hexValue ha,
      isPrintable_of_hexValue hb, List.forall_mem_nil _⟩
  | four ha hb hd he h =>
    simp only [List.forall_mem_cons]
    exact ⟨hfixed _ (by simp), hfixed _ (by simp), isPrintable_of_hexValue ha,
      isPrintable_of_hexValue hb, isPrintable_of_hexValue hd, isPrintable_of_hexValue he,
      List.forall_mem_nil _⟩

theorem any_doubleChar (c : Char) : (doubleChar c).any breaksLine = false := by
  rw [List.any_eq_false]
  intro d hd
  rw [(printable_of_shows (shows_doubleChar c) d hd).2]
  exact Bool.false_ne_true

/-- What shows a character is at most six times as long. -/
theorem utf8Len_of_shows (h : Shows c cs) : String.utf8Len cs ≤ 6 * c.utf8Size := by
  have hpos := c.utf8Size_pos
  cases h with
  | letter h =>
    have hletter := utf8Size_escapeLetter h
    simp only [String.utf8Len_cons, String.utf8Len_nil, hletter]
    have hslash : '\\'.utf8Size = 1 := rfl
    omega
  | self plain h =>
    simp only [String.utf8Len_cons, String.utf8Len_nil]
    omega
  | two ha hb h =>
    have hfixed : '\\'.utf8Size = 1 ∧ 'x'.utf8Size = 1 := ⟨rfl, rfl⟩
    simp only [String.utf8Len_cons, String.utf8Len_nil, utf8Size_of_hexValue ha,
      utf8Size_of_hexValue hb]
    omega
  | four ha hb hd he h =>
    have hfixed : '\\'.utf8Size = 1 ∧ 'u'.utf8Size = 1 := ⟨rfl, rfl⟩
    simp only [String.utf8Len_cons, String.utf8Len_nil, utf8Size_of_hexValue ha,
      utf8Size_of_hexValue hb, utf8Size_of_hexValue hd, utf8Size_of_hexValue he]
    omega

theorem hexChar?_eq {gs : List Glyph}
    (h : gs.foldlM (fun n g => (hexValue? g.char).map (16 * n + ·)) 0 = some c.toNat) :
    hexChar? gs = some c := by
  have hvalid : c.toNat.isValidChar := c.valid
  have hchar : Char.ofNatAux c.toNat hvalid = c := by
    have hof : Char.ofNat c.toNat = Char.ofNatAux c.toNat hvalid := dif_pos hvalid
    rw [← hof, Char.ofNat_toNat]
  rw [hexChar?, h]
  exact (dif_pos hvalid).trans (congrArg some hchar)

variable {pause : Pause}

theorem doubleQuoted?_space : doubleQuoted? pause (placed p (' ' :: rest)) =
    doubleQuoted? (pause.addBlank ' ') (placed (p.next ' ') rest) := by
  rw [placed_cons (by decide), doubleQuoted?.eq_def]
  rfl

theorem bind_prepend (answer : Option (List Char × List Glyph)) (front : List Char) (c : Char) :
    (answer.bind fun x => some (front ++ c :: x.1, x.2)) =
      answer.map fun x => (front ++ c :: x.1, x.2) := by
  cases answer <;> rfl

/-- A character that is no space is read from what shows it. -/
theorem doubleQuoted?_shows (h : Shows c cs) (hspace : isSpace c = false)
    (hcolumn : 0 < p.column) :
    doubleQuoted? pause (placed p (cs ++ rest)) =
      (doubleQuoted? {} (placed (p.past cs) rest)).map
        fun (ds, r) => (pause.fold ++ c :: ds, r) := by
  have hslash : isBreak '\\' = false := by decide
  have hshown := printable_of_shows h
  cases h with
  | letter h =>
    obtain ⟨hletter, hprint, hbreak, hx, hu, hU⟩ := escaped?_escapeLetter h
    simp only [List.cons_append, List.nil_append, Spot.past_cons, Spot.past_nil]
    rw [placed_cons (by decide), placed_cons hprint, doubleQuoted?.eq_def]
    simp [isBlank, hslash, isEnd, isDocumentMark_of_column, hcolumn, hbreak, hx, hu, hU, hletter,
      bind_prepend]
  | self plain h =>
    simp only [List.cons_append, List.nil_append, Spot.past_cons, Spot.past_nil]
    have hquote : c ≠ '\x22' := by
      rintro rfl
      cases plain
    have hbackslash : c ≠ '\\' := by
      rintro rfl
      cases plain
    obtain ⟨-, hbreak⟩ := hshown c List.mem_cons_self
    rw [placed_cons h, doubleQuoted?.eq_def]
    simp [isBlank_of_isPrintable h, isBreak_of_isPrintable h, isEnd_of_isPrintable h, hspace,
      hbreak, isDocumentMark_of_column, hcolumn, hquote, hbackslash]
  | @two a b _ _ ha hb h =>
    have hchar : ∀ g₁ g₂ : Glyph, g₁.char = a → g₂.char = b → hexChar? [g₁, g₂] = some c :=
      fun g₁ g₂ h₁ h₂ => hexChar?_eq (by simp [h₁, h₂, ha, hb, h])
    simp only [List.cons_append, List.nil_append, Spot.past_cons, Spot.past_nil]
    rw [placed_cons (by decide), placed_cons (by decide),
      placed_cons (isPrintable_of_hexValue ha).1, placed_cons (isPrintable_of_hexValue hb).1,
      doubleQuoted?.eq_def]
    simp [isBlank, isBreak, isEnd, isDocumentMark_of_column, hcolumn, hchar, bind_prepend]
  | @four a b d e _ _ _ _ ha hb hd he h =>
    have hchar : ∀ g₁ g₂ g₃ g₄ : Glyph, g₁.char = a → g₂.char = b → g₃.char = d → g₄.char = e →
        hexChar? [g₁, g₂, g₃, g₄] = some c :=
      fun g₁ g₂ g₃ g₄ h₁ h₂ h₃ h₄ => hexChar?_eq (by simp [h₁, h₂, h₃, h₄, ha, hb, hd, he, h])
    simp only [List.cons_append, List.nil_append, Spot.past_cons, Spot.past_nil]
    rw [placed_cons (by decide), placed_cons (by decide),
      placed_cons (isPrintable_of_hexValue ha).1, placed_cons (isPrintable_of_hexValue hb).1,
      placed_cons (isPrintable_of_hexValue hd).1, placed_cons (isPrintable_of_hexValue he).1,
      doubleQuoted?.eq_def]
    simp [isBlank, isBreak, isEnd, isDocumentMark_of_column, hcolumn, hchar, bind_prepend]

theorem doubleQuoted?_end (hcolumn : 0 < p.column) :
    doubleQuoted? pause (placed p ('\x22' :: rest)) =
      some (pause.fold, placed (p.next '\x22') rest) := by
  rw [placed_cons (by decide), doubleQuoted?.eq_def]
  simp [isBlank, isBreak, isEnd, isDocumentMark_of_column, hcolumn]

/-- The text between the quotes, of which a pause holds spaces, and its end. -/
theorem doubleQuoted?_chars {blanks : List Char} (hcolumn : 0 < p.column) :
    doubleQuoted? { blanks := blanks } (placed p (cs.flatMap doubleChar ++ '\x22' :: rest)) =
      some (blanks ++ cs, placed (p.past (cs.flatMap doubleChar ++ ['\x22'])) rest) := by
  induction cs generalizing blanks p with
  | nil =>
    rw [List.flatMap_nil, List.nil_append, doubleQuoted?_end hcolumn, List.append_nil]
    rfl
  | cons c cs ih =>
    have hnext : 0 < (p.past (doubleChar c)).column := by
      rw [Spot.past_eq (any_doubleChar c)]
      exact Nat.add_pos_left hcolumn _
    rw [List.flatMap_cons, List.append_assoc, List.append_assoc, Spot.past_append]
    by_cases hspace : isSpace c = true
    · obtain rfl : c = ' ' := of_decide_eq_true hspace
      have hrender : doubleChar ' ' = [' '] := by decide
      have hrec := @ih (p.next ' ') (blanks ++ [' ']) hnext
      rw [List.append_assoc] at hrec
      rw [hrender, List.cons_append, List.nil_append, doubleQuoted?_space]
      exact hrec
    · rw [doubleQuoted?_shows (shows_doubleChar c) (eq_false_of_ne_true hspace) hcolumn, ih hnext]
      rfl

/-- A scalar between double quotes holds the text that is written. -/
theorem doubleQuoted?_text (cs tail : List Char) :
    doubleQuoted? {} ((placed p (doubleQuoted cs ++ tail)).drop 1) =
      some (cs, placed (p.past (doubleQuoted cs)) tail) := by
  have hcolumn : 0 < (p.next '\x22').column := by
    rw [Spot.next_char (by decide)]
    exact Nat.succ_pos _
  rw [doubleQuoted, List.cons_append, List.cons_append, List.append_assoc, placed_cons (by decide)]
  exact doubleQuoted?_chars hcolumn

theorem printable_doubleQuoted (cs : List Char) : Printable (doubleQuoted cs) := by
  have hchars : Printable (cs.flatMap doubleChar) := by
    intro d hd
    obtain ⟨c, -, hd⟩ := List.mem_flatMap.1 hd
    exact (printable_of_shows (shows_doubleChar c) d hd).1
  rw [doubleQuoted]
  simp only [printable_append, List.cons_append, printable_cons]
  exact ⟨by decide, hchars, by decide, printable_nil⟩

end Double

end Federation.Yaml
