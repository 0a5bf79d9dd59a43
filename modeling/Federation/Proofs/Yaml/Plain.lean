import Federation.Proofs.Yaml.Places

/-!
# Plain scalars read back

A text that is written plain is read up to its end, which is the colon after a key or the end of its
line. Blanks inside it come out as they went in.
-/

namespace Federation.Yaml

variable {c : Char} {cs rest tail : List Char} {p : Spot}

theorem separated_append (h : separated cs = false) : separated (cs ++ rest) = false := by
  cases cs with
  | nil => cases h
  | cons c cs => exact h

/-- A reader that passes over spaces passes over indentation. -/
theorem pass_indentation {β : Type} (read : List Glyph → β)
    (h : ∀ p rest, read (placed p (' ' :: rest)) = read (placed (p.next ' ') rest)) (n : Nat) :
    read (placed p (indentation n ++ rest)) = read (placed (p.past (indentation n)) rest) := by
  induction n generalizing p with
  | zero => rfl
  | succ n ih =>
    have hsucc : indentation (n + 1) = ' ' :: indentation n := rfl
    rw [hsucc, List.cons_append, h, ih, Spot.past_cons]

variable {ctx : PlainContext} {blanks : List Char}

/-- A character that counts is added to what a plain scalar holds. -/
theorem plain?_char {pause : Pause} (flow : ctx.flow = false) (hc : isPrintable c = true)
    (hspace : isSpace c = false) (hbreak : breaksLine c = false)
    (goesOn : pause ≠ {} → ctx.stopsBefore (placed p (c :: rest)) = false)
    (noColon : ctx.endsBefore (placed p (c :: rest)) = false) :
    plain? ctx pause (placed p (c :: rest)) =
      (plain? ctx {} (placed (p.next c) rest)).map fun (ds, r) => (pause.fold ++ c :: ds, r) := by
  have hstop : (pause != {} && ctx.stopsBefore (placed p (c :: rest))) = false := by
    by_cases h : pause = {}
    · simp [h]
    · rw [goesOn h, Bool.and_false]
  have hstray : ctx.strayColon (placed p (c :: rest)) = false := by
    rw [PlainContext.strayColon, flow]
    rfl
  rw [placed_cons hc] at hstop hstray noColon ⊢
  rw [plain?]
  simp only [isBlank_of_isPrintable hc, isBreak_of_isPrintable hc, isEnd_of_isPrintable hc, hspace,
    hbreak, hstop, hstray, noColon, Bool.false_eq_true, if_false]

theorem plain?_space {pause : Pause} : plain? ctx pause (placed p (' ' :: rest)) =
    plain? ctx (pause.addBlank ' ') (placed (p.next ' ') rest) := by
  rw [placed_cons (by decide), plain?]
  simp [isBlank]

/-- A colon ends a plain scalar only before a gap. -/
theorem endsBefore_eq_false (flow : ctx.flow = false) (hc : isPrintable c = true)
    (hrest : Printable rest) (h : c = ':' → separated rest = false) :
    ctx.endsBefore (placed p (c :: rest)) = false := by
  rw [placed_cons hc, PlainContext.endsBefore, charAt_cons, charAt_placed hrest,
    isGap_ahead hrest, flow, Bool.false_and, Bool.or_false]
  by_cases hcolon : c = ':'
  · rw [h hcolon, Bool.and_false]
  · have : charAt (⟨c, p.index, p.line, p.column⟩ :: placed (p.next c) rest) 0 ≠ ':' := hcolon
    simp [this]

/-- A stretch of a plain scalar after its first character. -/
theorem plain?_stretch (flow : ctx.flow = false) {before : Char} (hcs : Printable cs)
    (oneLine : cs.any breaksLine = false) (unmarked : hasInnerMark before cs = false)
    (hlast : cs.getLast? ≠ some ' ') (hblanks : cs = [] → blanks = [])
    (hbefore : blanks ≠ [] → separates before = true) (hcolumn : 0 < p.column)
    (hindent : ctx.indent ≤ p.column) (htail : Printable tail) :
    plain? ctx { blanks := blanks } (placed p (cs ++ tail)) =
      (plain? ctx {} (placed (p.past cs) tail)).map
        fun (ds, r) => (blanks ++ cs ++ ds, r) := by
  -- spaces wait in the pause until a character that counts brings them into the text
  induction cs generalizing before blanks p with
  | nil =>
    rw [hblanks rfl]
    exact Option.map_id'.symm
  | cons c rest ih =>
    obtain ⟨hc, hrest⟩ := printable_cons.1 hcs
    rw [List.any_cons, Bool.or_eq_false_iff] at oneLine
    rw [hasInnerMark] at unmarked
    simp only [Bool.or_eq_false_iff, Bool.and_eq_false_iff, decide_eq_false_iff_not] at unmarked
    obtain ⟨⟨hcolon, hcomment⟩, unmarked⟩ := unmarked
    have hnext := p.next_char oneLine.1
    have hlast' : rest.getLast? ≠ some ' ' := by
      intro h
      rw [List.getLast?_cons, h] at hlast
      exact hlast rfl
    have hcolumn' : 0 < (p.next c).column := by rw [hnext]; exact Nat.succ_pos _
    have hindent' : ctx.indent ≤ (p.next c).column := by rw [hnext]; push_cast; omega
    by_cases hspace : c = ' '
    · subst hspace
      have hrest' : rest ≠ [] := by
        rintro rfl
        exact hlast rfl
      have hadd : ({ blanks := blanks } : Pause).addBlank ' ' = { blanks := blanks ++ [' '] } := rfl
      rw [List.cons_append, plain?_space, hadd, ih hrest oneLine.2 unmarked hlast'
        (fun h => absurd h hrest') (fun _ => by decide) hcolumn' hindent']
      simp
    · -- after a space only `#` would stop the scalar, and no text with such a mark is written plain
      have goesOn : ({ blanks := blanks } : Pause) ≠ {} →
          ctx.stopsBefore (placed p (c :: (rest ++ tail))) = false := by
        intro h
        have hblanks' : blanks ≠ [] := by
          rintro rfl
          exact h rfl
        have hcomment : c ≠ '#' := hcomment.resolve_right (by simp [hbefore hblanks'])
        rw [placed_cons hc, PlainContext.stopsBefore, isDocumentMark, flow]
        simp [hcomment, hindent, hcolumn.ne']
      have noColon : ctx.endsBefore (placed p (c :: (rest ++ tail))) = false := by
        refine endsBefore_eq_false flow hc (printable_append.2 ⟨hrest, htail⟩) fun h => ?_
        exact separated_append (hcolon.resolve_left (not_not_intro h))
      rw [List.cons_append, plain?_char flow hc (decide_eq_false hspace) oneLine.1 goesOn noColon,
        ih hrest oneLine.2 unmarked hlast' (fun _ => rfl) (fun h => absurd rfl h) hcolumn' hindent']
      simp [Pause.fold, Function.comp_def]

theorem printable_of_needsEscape (h : needsEscape cs = false) : Printable cs := by
  simp only [needsEscape, Bool.or_eq_false_iff, Bool.not_eq_false'] at h
  exact List.all_eq_true.1 h.1

theorem plainAllowed_iff : plainAllowed cs = true ↔ needsEscape cs = false ∧
    cs.any breaksLine = false ∧ cs.head? ≠ some ' ' ∧ cs.getLast? ≠ some ' ' ∧
      startsLikeDocument cs = false ∧ startsWithMark cs = false ∧
        hasInnerMark (cs.headD ' ') cs.tail = false := by
  simp only [plainAllowed, hasMark, Bool.and_eq_true, Bool.not_eq_true', Bool.or_eq_false_iff,
    decide_eq_true_eq, and_assoc]

/-- A plain scalar holds the text that is written. -/
theorem plain?_text (flow : ctx.flow = false) (h : plainAllowed (c :: rest) = true)
    (hindent : ctx.indent ≤ p.column + 1) (htail : Printable tail) :
    plain? ctx {} (placed p (c :: rest ++ tail)) =
      (plain? ctx {} (placed (p.past (c :: rest)) tail)).map
        fun (ds, r) => (c :: rest ++ ds, r) := by
  obtain ⟨escape, oneLine, hfirst, hlast, -, hstart, hinner⟩ := plainAllowed_iff.1 h
  obtain ⟨hc, hrest⟩ := printable_cons.1 (printable_of_needsEscape escape)
  rw [List.any_cons, Bool.or_eq_false_iff] at oneLine
  have hnext := p.next_char oneLine.1
  have hspace : isSpace c = false := decide_eq_false fun h => hfirst (congrArg some h)
  have noColon : ctx.endsBefore (placed p (c :: (rest ++ tail))) = false := by
    refine endsBefore_eq_false flow hc (printable_append.2 ⟨hrest, htail⟩) fun hcolon => ?_
    rw [startsWithMark, hcolon] at hstart
    exact separated_append hstart
  have hlast' : rest.getLast? ≠ some ' ' := by
    intro h
    rw [List.getLast?_cons, h] at hlast
    exact hlast rfl
  rw [List.cons_append, plain?_char flow hc hspace oneLine.1 (fun h => absurd rfl h) noColon,
    plain?_stretch flow hrest oneLine.2 hinner hlast' (fun _ => rfl) (fun h => absurd rfl h)
      (by rw [hnext]; exact Nat.succ_pos _) (by rw [hnext]; exact_mod_cast hindent) htail]
  simp [Pause.fold, Function.comp_def]

/-- A plain scalar ends at the colon that makes it a key. -/
theorem plain?_colon (flow : ctx.flow = false) (hrest : Printable rest)
    (h : separated rest = true) :
    plain? ctx {} (placed p (':' :: rest)) = some ([], false, placed p (':' :: rest)) := by
  have hends : ctx.endsBefore (placed p (':' :: rest)) = true := by
    rw [placed_cons (by decide), PlainContext.endsBefore, charAt_cons, charAt_placed hrest,
      isGap_ahead hrest, h]
    rfl
  have hstray : ctx.strayColon (placed p (':' :: rest)) = false := by
    rw [PlainContext.strayColon, flow]
    rfl
  rw [placed_cons (by decide)] at hends hstray ⊢
  rw [plain?, hends, hstray]
  rfl

/-- What begins a line, after its indentation. -/
def Begins (cs : List Char) : Prop :=
  ∀ c ∈ cs.head?, isSpace c = false ∧ breaksLine c = false ∧ c ≠ '#'

theorem plain?_line (flow : ctx.flow = false) (hrest : Printable rest) {k : Nat}
    (hbegin : Begins rest) (h : rest = [] ∨ k < ctx.indent) :
    plain? ctx {} (placed p ('\n' :: indentation k ++ rest)) =
      some ([], true, placed (p.past ('\n' :: indentation k)) rest) := by
  have hbreak : plain? ctx {} (placed p ('\n' :: indentation k ++ rest)) =
      plain? ctx { breaks := ['\n'] } (placed (p.next '\n') (indentation k ++ rest)) := by
    rw [List.cons_append, placed_cons (by decide), plain?]
    rfl
  rw [hbreak, pass_indentation (plain? ctx { breaks := ['\n'] }) (fun _ _ => plain?_space),
    Spot.past_cons]
  have hcolumn := Spot.column_newLine (p := p) (c := '\n') (by decide) k
  generalize (p.next '\n').past (indentation k) = q at hcolumn ⊢
  cases rest with
  | nil => rfl
  | cons c rest =>
    obtain ⟨hc, -⟩ := printable_cons.1 hrest
    obtain ⟨hspace, hbreak, -⟩ := hbegin c rfl
    have hk : (q.column : Int) < ctx.indent := by
      rw [hcolumn]
      exact h.resolve_left (List.cons_ne_nil _ _)
    rw [placed_cons hc, plain?]
    simp [isBlank_of_isPrintable hc, isBreak_of_isPrintable hc, isEnd_of_isPrintable hc, hspace,
      hbreak, PlainContext.stopsBefore, flow, hk, Pause.hasBreak]

end Federation.Yaml
