import Federation.Proofs.Yaml.Quoted

/-!
# Blocks read back

A block holds its text: the hints before its first line say what its lines cannot show, which is
blanks that begin it and line breaks that end it.
-/

namespace Federation.Yaml

variable {c : Char} {cs rest : List Char} {p : Spot}

/-! ### The header -/

/-- What a hint says about the line breaks at the end of a block. -/
def chompOf : List Char → Chomp
  | ['-'] => .strip
  | ['+'] => .keep
  | _ => .clip

/-- What a hint says about the indentation of a block. -/
def incrementOf (hint : List Char) : Option Nat :=
  if hint.isEmpty then none else some 2

theorem indentHint_cases (cs : List Char) : indentHint cs = [] ∨ indentHint cs = ['2'] := by
  unfold indentHint
  split
  · split
    · exact .inr rfl
    · exact .inl rfl
  · exact .inl rfl

theorem chompHint_cases (cs : List Char) :
    chompHint cs = ['-'] ∨ chompHint cs = ['+'] ∨ chompHint cs = [] := by
  unfold chompHint
  split
  · exact .inl rfl
  · split <;> simp
  · split <;> (try split) <;> simp

theorem blockHeader?_hints (cs rest : List Char) :
    blockHeader? (placed p (indentHint cs ++ chompHint cs ++ '\n' :: rest)) =
      some (⟨chompOf (chompHint cs), incrementOf (indentHint cs)⟩,
        placed (p.past (indentHint cs ++ chompHint cs)) ('\n' :: rest)) := by
  rcases indentHint_cases cs with hindent | hindent <;>
    rcases chompHint_cases cs with hchomp | hchomp | hchomp <;>
      rw [hindent, hchomp] <;>
      simp (disch := decide) only [List.nil_append, List.cons_append, Spot.past_cons, Spot.past_nil,
        placed_cons] <;>
      rfl

/-! ### Empty lines -/

section EmptyLines

variable {indent reached : Nat}

/-- Where indentation ends: at a character, or at a space that is part of a line. -/
def Stops (indent column : Nat) (cs : List Char) : Prop :=
  ∀ c ∈ cs.head?, breaksLine c = false ∧ (isSpace c = false ∨ (indent ≠ 0 ∧ column = indent))

theorem emptyLines?_indentation {n : Nat} (h : indent = 0 ∨ p.column + n ≤ indent) :
    emptyLines? indent reached (placed p (indentation n ++ rest)) =
      emptyLines? indent reached (placed (p.past (indentation n)) rest) := by
  induction n generalizing p with
  | zero => rfl
  | succ n ih =>
    have hsucc : indentation (n + 1) = ' ' :: indentation n := rfl
    have hnext : p.next ' ' = ⟨p.index + 1, p.line, p.column + 1⟩ := Spot.next_char (by decide)
    have hindenting : indent = 0 ∨ p.column < indent := by omega
    rw [hsucc, List.cons_append, placed_cons (by decide), emptyLines?, Spot.past_cons, hnext]
    simp only [hindenting, true_and, if_true]
    exact ih (by simp only; omega)

theorem emptyLines?_break (hc : isPrintable c = true) (h : breaksLine c = true) :
    emptyLines? indent reached (placed p (c :: rest)) =
      (emptyLines? indent (max reached p.column) (placed (p.next c) rest)).map
        fun (cs, r) => (c :: cs, r) := by
  have hspace : c ≠ ' ' := of_decide_eq_false (isSpace_of_breaksLine h)
  have htab : c ≠ '\t' := ne_of_isPrintable hc (by decide)
  rw [placed_cons hc, emptyLines?]
  simp [hspace, htab, isBreak_of_isPrintable hc, h]

theorem emptyLines?_stop (hrest : Printable rest) (h : Stops indent p.column rest) :
    emptyLines? indent reached (placed p rest) =
      some ([], max reached p.column, placed p rest) := by
  cases rest with
  | nil =>
    rw [placed_nil, emptyLines?]
    simp [isBreak]
  | cons c rest =>
    have hc := hrest c List.mem_cons_self
    obtain ⟨hbreak, hspace⟩ := h c rfl
    have htab : c ≠ '\t' := ne_of_isPrintable hc (by decide)
    have hend : ¬((indent = 0 ∨ p.column < indent) ∧ c = ' ') := by
      rintro ⟨hindenting, rfl⟩
      rcases hspace with hspace | ⟨hne, heq⟩
      · cases hspace
      · omega
    rw [placed_cons hc, emptyLines?]
    simp only [hend, htab, isBreak_of_isPrintable hc, hbreak, and_false, Bool.false_eq_true,
      if_false]

/-- Empty lines and the indentation after them, from the beginning of a line on. -/
theorem emptyLines?_lines {n : Nat} (hcs : Printable cs) (breaks : ∀ c ∈ cs, breaksLine c = true)
    (hcolumn : p.column = 0) (hindent : indent = 0 ∨ n ≤ indent) (hrest : Printable rest)
    (h : Stops indent n rest) (reached : Nat) :
    emptyLines? indent reached (placed p (cs ++ (indentation n ++ rest))) =
      some (cs, max reached n, placed (p.past (cs ++ indentation n)) rest) := by
  induction cs generalizing p reached with
  | nil =>
    have hn : (p.past (indentation n)).column = n := by
      rw [Spot.past_indentation, hcolumn, Nat.zero_add]
    rw [List.nil_append, emptyLines?_indentation (by omega), emptyLines?_stop hrest (by rwa [hn]),
      hn]
    rfl
  | cons c cs ih =>
    obtain ⟨hc, hcs⟩ := printable_cons.1 hcs
    have hbreak := breaks c List.mem_cons_self
    have hnext : (p.next c).column = 0 := by rw [Spot.next_break hbreak]
    rw [List.cons_append, emptyLines?_break hc hbreak,
      ih hcs (fun d hd => breaks d (List.mem_cons_of_mem _ hd)) hnext, hcolumn, Nat.max_zero]
    rfl

end EmptyLines

/-! ### Lines -/

section Lines

variable {column : Nat} {render : Char → List Char}

theorem linesAt_line (h : ∀ c ∈ cs, breaksLine c = false) :
    linesAt column (fun c => [c]) false (cs ++ rest) =
      cs ++ linesAt column (fun c => [c]) false rest := by
  induction cs with
  | nil => rfl
  | cons c cs ih =>
    obtain ⟨hc, hcs⟩ := List.forall_mem_cons.1 h
    simp only [List.cons_append, linesAt, hc, Bool.false_eq_true, if_false, List.nil_append]
    rw [ih hcs]

theorem linesAt_eq_of_breaks {newLine : Bool} (h : ∀ c ∈ cs, breaksLine c = true) :
    linesAt column render newLine cs = cs := by
  induction cs generalizing newLine with
  | nil => rfl
  | cons c cs ih =>
    obtain ⟨hc, hcs⟩ := List.forall_mem_cons.1 h
    rw [linesAt, if_pos hc, ih hcs]

theorem linesAt_breaks {newLine : Bool} (h : ∀ c ∈ cs, breaksLine c = true)
    (hnew : cs = [] → newLine = true) :
    linesAt column render newLine (cs ++ rest) = cs ++ linesAt column render true rest := by
  induction cs generalizing newLine with
  | nil => rw [hnew rfl]; rfl
  | cons c cs ih =>
    obtain ⟨hc, hcs⟩ := List.forall_mem_cons.1 h
    simp only [List.cons_append, linesAt, hc, if_true]
    rw [ih hcs fun _ => rfl]

theorem linesAt_margin (h : ∀ c ∈ cs.head?, breaksLine c = false) (hne : cs ≠ []) :
    linesAt column render true cs = indentation column ++ linesAt column render false cs := by
  cases cs with
  | nil => exact absurd rfl hne
  | cons c cs =>
    simp only [linesAt, h c rfl, Bool.false_eq_true, if_false, if_true, List.nil_append,
      List.append_assoc]

/-- The characters of a line and what follows it. -/
theorem span_line (rest : List Char) (hcs : Printable cs) (h : ∀ c ∈ cs, breaksLine c = false)
    (hc : isPrintable c = true) (hbreak : breaksLine c = true) :
    ((placed p (cs ++ c :: rest)).takeWhile (!isBreakOrEnd ·.char)).map (·.char) = cs ∧
      (placed p (cs ++ c :: rest)).dropWhile (!isBreakOrEnd ·.char) =
        placed (p.past cs) (c :: rest) := by
  induction cs generalizing p with
  | nil =>
    have hends : isBreakOrEnd c = true := by
      rw [isBreakOrEnd, isBreak_of_isPrintable hc, hbreak, Bool.true_or]
    rw [List.nil_append, placed_cons hc, List.takeWhile_cons_of_neg (by simp [hends]),
      List.dropWhile_cons_of_neg (by simp [hends])]
    exact ⟨rfl, (placed_cons hc).symm⟩
  | cons d cs ih =>
    obtain ⟨hd, hcs⟩ := printable_cons.1 hcs
    obtain ⟨hdbreak, hbreaks⟩ := List.forall_mem_cons.1 h
    have hends : isBreakOrEnd d = false := by
      rw [isBreakOrEnd, isBreak_of_isPrintable hd, hdbreak, isEnd_of_isPrintable hd, Bool.or_self]
    rw [List.cons_append, placed_cons hd, List.takeWhile_cons_of_pos (by simp [hends]),
      List.dropWhile_cons_of_pos (by simp [hends])]
    exact ⟨congrArg (d :: ·) (ih hcs hbreaks).1, (ih hcs hbreaks).2⟩

/-- A text that begins with a line that is not empty, by its lines. -/
inductive Lined : List Char → Prop
  | last {line breaks : List Char} (nonempty : line ≠ []) (hline : ∀ c ∈ line, breaksLine c = false)
      (hbreaks : ∀ c ∈ breaks, breaksLine c = true) : Lined (line ++ breaks)
  | more {line breaks rest : List Char} (nonempty : line ≠ [])
      (hline : ∀ c ∈ line, breaksLine c = false) (hbreaks : ∀ c ∈ breaks, breaksLine c = true)
      (separate : breaks ≠ []) (hrest : Lined rest) : Lined (line ++ (breaks ++ rest))

theorem Lined.exists_cons (h : Lined cs) : ∃ c rest, cs = c :: rest ∧ breaksLine c = false := by
  cases h with
  | @last line breaks nonempty hline hbreaks =>
    cases line with
    | nil => exact absurd rfl nonempty
    | cons c line => exact ⟨c, _, rfl, hline c List.mem_cons_self⟩
  | @more line breaks rest nonempty hline hbreaks separate hrest =>
    cases line with
    | nil => exact absurd rfl nonempty
    | cons c line => exact ⟨c, _, rfl, hline c List.mem_cons_self⟩

theorem Lined.cons (h : Lined cs) (hc : breaksLine c = false) : Lined (c :: cs) := by
  cases h with
  | last nonempty hline hbreaks =>
    exact .last (List.cons_ne_nil c _) (List.forall_mem_cons.2 ⟨hc, hline⟩) hbreaks
  | more nonempty hline hbreaks separate hrest =>
    exact .more (List.cons_ne_nil c _) (List.forall_mem_cons.2 ⟨hc, hline⟩) hbreaks separate hrest

theorem lined_or_breaks (cs : List Char) :
    (∃ breaks rest, cs = breaks ++ rest ∧ (∀ c ∈ breaks, breaksLine c = true) ∧
      (rest = [] ∨ Lined rest)) := by
  induction cs with
  | nil => exact ⟨[], [], rfl, List.forall_mem_nil _, .inl rfl⟩
  | cons c cs ih =>
    obtain ⟨breaks, rest, rfl, hbreaks, hrest⟩ := ih
    cases hc : breaksLine c with
    | true => exact ⟨c :: breaks, rest, rfl, List.forall_mem_cons.2 ⟨hc, hbreaks⟩, hrest⟩
    | false =>
      refine ⟨[], _, rfl, List.forall_mem_nil _, .inr ?_⟩
      have hline : ∀ d ∈ [c], breaksLine d = false := List.forall_mem_singleton.2 hc
      rcases hrest with rfl | hrest
      · rw [List.append_nil]
        exact .last (List.cons_ne_nil c []) hline hbreaks
      · cases breaks with
        | nil => exact hrest.cons hc
        | cons b breaks =>
          exact .more (List.cons_ne_nil c []) hline hbreaks (List.cons_ne_nil b breaks) hrest

/-- The line breaks at the end of a block that count. -/
def kept : Chomp → List Char → List Char → List Char
  | .strip, _, _ => []
  | .clip, ending, _ => ending
  | .keep, ending, empty => ending ++ empty

theorem chompHint_of_line (hc : breaksLine c = false) : chompHint (cs ++ [c]) = ['-'] := by
  rw [chompHint, List.reverse_append, List.reverse_singleton, List.singleton_append]
  cases cs.reverse <;> simp [hc]

theorem chompHint_of_breaks {d : Char} (hd : breaksLine d = true) :
    chompHint (cs ++ [c, d]) = if breaksLine c then ['+'] else [] := by
  have hreverse : (cs ++ [c, d]).reverse = d :: c :: cs.reverse := by simp
  rw [chompHint, hreverse]
  simp only [hd, if_true]

theorem chompHint_append (h : Lined rest) : chompHint (cs ++ rest) = chompHint rest := by
  obtain ⟨c, rest, rfl, hc⟩ := h.exists_cons
  rcases rest.eq_nil_or_concat with rfl | ⟨rest, d, rfl⟩
  · rw [chompHint_of_line hc, ← List.nil_append [c], chompHint_of_line hc]
  · obtain ⟨front, e, hfront⟩ := (c :: rest).eq_nil_or_concat.resolve_left (List.cons_ne_nil c rest)
    have hsplit : c :: rest.concat d = front ++ [e, d] := by
      rw [List.concat_eq_append, ← List.cons_append, hfront, List.concat_eq_append]
      simp
    rw [hsplit, ← List.append_assoc]
    cases hd : breaksLine d with
    | true => rw [chompHint_of_breaks hd, chompHint_of_breaks hd]
    | false =>
      have hlast : ∀ front : List Char, front ++ [e, d] = (front ++ [e]) ++ [d] := by simp
      rw [hlast, hlast, chompHint_of_line hd, chompHint_of_line hd]

/-- The hint keeps the line breaks at the end of the last line, as they are read. -/
theorem kept_of_last {line breaks : List Char} (nonempty : line ≠ [])
    (hline : ∀ c ∈ line, breaksLine c = false) (hbreaks : ∀ c ∈ breaks, breaksLine c = true) :
    kept (chompOf (chompHint (line ++ breaks))) (breaks.take 1) (breaks.drop 1) = breaks := by
  obtain ⟨front, c, rfl⟩ := line.eq_nil_or_concat.resolve_left nonempty
  rw [List.concat_eq_append] at hline ⊢
  have hc : breaksLine c = false := hline c (by simp)
  rcases breaks.eq_nil_or_concat with rfl | ⟨breaks, d, rfl⟩
  · rw [List.append_nil, chompHint_of_line hc]
    rfl
  · rw [List.concat_eq_append] at hbreaks ⊢
    have hd : breaksLine d = true := hbreaks d (by simp)
    rcases breaks.eq_nil_or_concat with rfl | ⟨breaks, e, rfl⟩
    · have hpair : front ++ [c] ++ ([] ++ [d]) = front ++ [c, d] := by simp
      rw [hpair, chompHint_of_breaks hd, hc]
      rfl
    · rw [List.concat_eq_append] at hbreaks ⊢
      have he : breaksLine e = true := hbreaks e (by simp)
      have hpair : front ++ [c] ++ (breaks ++ [e] ++ [d]) = front ++ [c] ++ breaks ++ [e, d] := by
        simp
      rw [hpair, chompHint_of_breaks hd, he]
      exact List.take_append_drop 1 _

theorem endsLine_append_of_lined (h : Lined rest) : endsLine (cs ++ rest) = endsLine rest := by
  obtain ⟨c, rest, rfl, hc⟩ := h.exists_cons
  rw [endsLine_append cs rest hc]
  exact (endsLine_append [] rest hc).symm

theorem blockLines?_stop {indent fuel : Nat} {ending empty : List Char} {blank : Bool}
    (hrest : Printable rest) (h : rest = [] ∨ p.column < indent) :
    blockLines? true indent fuel ending empty blank (placed p rest) =
      some ([], ending, empty, placed p rest) := by
  cases fuel with
  | zero => rfl
  | succ fuel =>
    cases rest with
    | nil =>
      rw [placed_nil, blockLines?.eq_def]
      simp [isEnd]
    | cons c rest =>
      have hcolumn : p.column ≠ indent := (h.resolve_left (List.cons_ne_nil _ _)).ne
      rw [placed_cons (hrest c List.mem_cons_self), blockLines?.eq_def]
      simp [hcolumn]

/-- The line break that ends the last line, where the text has none of its own. -/
def lastBreak (cs : List Char) : List Char :=
  if endsLine cs then [] else ['\n']

theorem lastBreak_append_of_lined (h : Lined rest) : lastBreak (cs ++ rest) = lastBreak rest := by
  rw [lastBreak, lastBreak, endsLine_append_of_lined h]

theorem linesAt_breaks_lined (hbreaks : ∀ c ∈ cs, breaksLine c = true) (h : Lined rest) :
    linesAt column (fun c => [c]) true (cs ++ rest) =
      cs ++ (indentation column ++ linesAt column (fun c => [c]) false rest) := by
  obtain ⟨c, rest, rfl, hc⟩ := h.exists_cons
  rw [linesAt_breaks hbreaks (fun _ => rfl),
    linesAt_margin (fun _ h => by cases h; exact hc) (List.cons_ne_nil _ _)]

/-- The first character of a line ends the indentation before it, also if it is a space. -/
theorem stops_linesAt {indent : Nat} (h : Lined rest) (tail : List Char)
    (hc : ∀ c ∈ rest.head?, isSpace c = false ∨ (indent ≠ 0 ∧ column = indent)) :
    Stops indent column (linesAt column (fun c => [c]) false rest ++ tail) := by
  obtain ⟨c, rest, rfl, hbreak⟩ := h.exists_cons
  intro d hd
  simp only [linesAt, hbreak, Bool.false_eq_true, if_false, List.nil_append, List.cons_append,
    List.head?_cons, Option.mem_def, Option.some.injEq] at hd
  subst hd
  exact ⟨hbreak, hc c rfl⟩

/-- A line, the break after it and the empty lines that follow. -/
theorem blockLines?_line {line breaks ending empty : List Char} {gs : List Glyph}
    {indent fuel reached : Nat} {blank : Bool} (nonempty : line ≠ []) (hprint : Printable line)
    (hline : ∀ c ∈ line, breaksLine c = false) (hc : isPrintable c = true)
    (hbreak : breaksLine c = true) (hcolumn : p.column = indent)
    (h : emptyLines? indent 0 (placed ((p.past line).next c) rest) = some (breaks, reached, gs)) :
    blockLines? true indent (fuel + 1) ending empty blank (placed p (line ++ c :: rest)) =
      (blockLines? true indent fuel [c] breaks (isBlank (ahead line)) gs).map
        fun (ds, r) => (ending ++ empty ++ line ++ ds, r) := by
  obtain ⟨htake, hdrop⟩ := @span_line c line p rest hprint hline hc hbreak
  have hafter : charAt (placed (p.past line) (c :: rest)) 0 = c ∧
      (placed (p.past line) (c :: rest)).drop 1 = placed ((p.past line).next c) rest := by
    rw [placed_cons hc]
    exact ⟨rfl, rfl⟩
  cases line with
  | nil => exact absurd rfl nonempty
  | cons a line =>
    have ha := hprint a List.mem_cons_self
    have hends : isEnd a = false := isEnd_of_isPrintable ha
    rw [List.cons_append, placed_cons ha] at htake hdrop ⊢
    rw [blockLines?.eq_def]
    simp only [htake, hdrop]
    rw [if_pos ⟨hcolumn, by rw [hends]; rfl⟩]
    simp only [hafter, isBreak_of_isPrintable hc, hbreak, if_true, h, joinLines, Bool.not_true,
      Bool.false_and, Bool.false_eq_true, if_false]
    rfl

theorem column_past_breaks {breaks : List Char} (h : ∀ c ∈ breaks, breaksLine c = true)
    (hcolumn : p.column = 0) (n : Nat) : (p.past (breaks ++ indentation n)).column = n := by
  induction breaks generalizing p with
  | nil => rw [List.nil_append, Spot.past_indentation, hcolumn, Nat.zero_add]
  | cons c breaks ih =>
    obtain ⟨hc, hbreaks⟩ := List.forall_mem_cons.1 h
    rw [List.cons_append, Spot.past_cons]
    exact ih hbreaks (by rw [Spot.next_break hc])

theorem stops_of_begins {indent k : Nat} (h : Begins rest) : Stops indent k rest :=
  fun c hc => ⟨(h c hc).2.1, .inl (h c hc).1⟩

/-- The last line of a block with its break and the empty lines after it. -/
theorem blockLines?_last {indent k : Nat} {line breaks : List Char} (nonempty : line ≠ [])
    (hprint : Printable line) (hline : ∀ c ∈ line, breaksLine c = false)
    (hbreaks : Printable (c :: breaks)) (hbreak : ∀ d ∈ c :: breaks, breaksLine d = true)
    (hk : k < indent) (hrest : Printable rest) (hbegin : Begins rest)
    (hcolumn : p.column = indent) :
    ∃ q : Spot, q.column = k ∧ ∀ fuel ending empty blank, line.length ≤ fuel →
      blockLines? true indent fuel ending empty blank
        (placed p (line ++ c :: (breaks ++ (indentation k ++ rest)))) =
        some (ending ++ empty ++ line, [c], breaks, placed q rest) := by
  obtain ⟨hc, hbreaks⟩ := printable_cons.1 hbreaks
  obtain ⟨hcbreak, hbreak⟩ := List.forall_mem_cons.1 hbreak
  have hstart : ((p.past line).next c).column = 0 := by rw [Spot.next_break hcbreak]
  have hq := column_past_breaks hbreak hstart k
  have hempty := emptyLines?_lines hbreaks hbreak hstart (.inr hk.le) hrest
    (stops_of_begins hbegin) 0
  refine ⟨_, hq, fun fuel ending empty blank hfuel => ?_⟩
  cases fuel with
  | zero => exact absurd (List.eq_nil_of_length_eq_zero (Nat.le_zero.1 hfuel)) nonempty
  | succ fuel =>
    rw [blockLines?_line nonempty hprint hline hc hcbreak hcolumn hempty,
      blockLines?_stop hrest (.inr (hq.trans_lt hk))]
    simp

theorem printable_lastBreak (cs : List Char) : Printable (lastBreak cs) := by
  unfold lastBreak
  split
  · exact printable_nil
  · exact List.forall_mem_singleton.2 (by decide)

theorem printable_body (column : Nat) (hcs : Printable cs) (k : Nat) (hrest : Printable rest) :
    Printable (linesAt column (fun c => [c]) false cs ++
      (lastBreak cs ++ (indentation k ++ rest))) := by
  simp only [printable_append]
  exact ⟨printable_linesAt (fun _ hc => List.forall_mem_singleton.2 hc) hcs,
    printable_lastBreak cs, printable_indentation k, hrest⟩

/-- The break that ends the last line and those after it; the hint says which are in the text. -/
theorem exists_written {line breaks : List Char} (nonempty : line ≠ [])
    (hline : ∀ c ∈ line, breaksLine c = false) (hbreaks : ∀ c ∈ breaks, breaksLine c = true) :
    ∃ c empty, breaks ++ lastBreak (line ++ breaks) = c :: empty ∧
      (∀ d ∈ c :: empty, breaksLine d = true) ∧
        kept (chompOf (chompHint (line ++ breaks))) [c] empty = breaks := by
  have hkept := kept_of_last nonempty hline hbreaks
  cases breaks with
  | nil =>
    obtain ⟨front, a, rfl⟩ := line.eq_nil_or_concat.resolve_left nonempty
    rw [List.concat_eq_append] at *
    have ha : breaksLine a = false := hline a (by simp)
    rw [List.append_nil, lastBreak, endsLine_concat, ha, chompHint_of_line ha]
    exact ⟨'\n', [], rfl, List.forall_mem_singleton.2 (by decide), rfl⟩
  | cons c breaks =>
    have hends : endsLine (line ++ c :: breaks) = true := by
      obtain ⟨front, a, hfront⟩ :=
        (c :: breaks).eq_nil_or_concat.resolve_left (List.cons_ne_nil _ _)
      rw [hfront, List.concat_eq_append] at hbreaks ⊢
      rw [← List.append_assoc, endsLine_concat]
      exact hbreaks a (by simp)
    rw [lastBreak, if_pos hends, List.append_nil]
    exact ⟨c, breaks, rfl, hbreaks, hkept⟩

/-- The lines of a block, and the indentation of what comes after it. -/
theorem blockLines?_lined {indent k : Nat} (hlined : Lined cs) (hcs : Printable cs)
    (hk : k < indent) (hrest : Printable rest) (hbegin : Begins rest)
    (hcolumn : p.column = indent) :
    ∃ body ending empty, ∃ q : Spot, q.column = k ∧
      body ++ kept (chompOf (chompHint cs)) ending empty = cs ∧
      ∀ fuel e m blank, cs.length ≤ fuel → blockLines? true indent fuel e m blank
        (placed p (linesAt indent (fun c => [c]) false cs ++
          (lastBreak cs ++ (indentation k ++ rest)))) =
        some (e ++ m ++ body, ending, empty, placed q rest) := by
  -- on the lines; the breaks `e` and `m` read before a line are given out with it, so the last
  -- ones stay apart in `ending` and `empty`, where the hint decides about them
  induction hlined generalizing p with
  | @last line breaks nonempty hline hbreaks =>
    obtain ⟨hprint, hprint'⟩ := printable_append.1 hcs
    obtain ⟨c, empty, hwritten, hbreak, hkept⟩ := exists_written nonempty hline hbreaks
    have hprint'' : Printable (c :: empty) := by
      rw [← hwritten]
      exact printable_append.2 ⟨hprint', printable_lastBreak _⟩
    obtain ⟨q, hq, hread⟩ := blockLines?_last nonempty hprint hline hprint'' hbreak hk hrest
      hbegin hcolumn
    refine ⟨line, [c], empty, q, hq, congrArg (line ++ ·) hkept, fun fuel e m blank hfuel => ?_⟩
    rw [List.length_append] at hfuel
    rw [linesAt_line hline, linesAt_eq_of_breaks hbreaks, List.append_assoc,
      ← List.append_assoc breaks, hwritten]
    exact hread fuel e m blank (by omega)
  | @more line breaks rest' nonempty hline hbreaks separate hmore ih =>
    obtain ⟨hprint, hprint'⟩ := printable_append.1 hcs
    obtain ⟨hprint', hprint''⟩ := printable_append.1 hprint'
    cases breaks with
    | nil => exact absurd rfl separate
    | cons c breaks =>
      obtain ⟨hc, hprint'⟩ := printable_cons.1 hprint'
      obtain ⟨hcbreak, hbreaks⟩ := List.forall_mem_cons.1 hbreaks
      have hstart : ((p.past line).next c).column = 0 := by rw [Spot.next_break hcbreak]
      have hq' := column_past_breaks hbreaks hstart indent
      obtain ⟨body, ending, empty, q, hq, hkept, hread⟩ := ih hprint'' hq'
      refine ⟨line ++ (c :: breaks ++ body), ending, empty, q, hq, ?_,
        fun fuel e m blank hfuel => ?_⟩
      · have hchomp : chompHint (line ++ (c :: breaks ++ rest')) = chompHint rest' := by
          rw [← List.append_assoc, chompHint_append hmore]
        rw [hchomp, List.append_assoc, List.append_assoc, hkept]
      · have htext : linesAt indent (fun c => [c]) false (line ++ (c :: breaks ++ rest')) =
            line ++ (c :: (breaks ++ (indentation indent ++
              linesAt indent (fun c => [c]) false rest'))) := by
          rw [linesAt_line hline, List.cons_append, linesAt, if_pos hcbreak,
            linesAt_breaks_lined hbreaks hmore]
        have hends : lastBreak (line ++ (c :: breaks ++ rest')) = lastBreak rest' := by
          rw [← List.append_assoc, lastBreak_append_of_lined hmore]
        have hnext := printable_body indent hprint'' k hrest
        have hstops := stops_linesAt hmore (lastBreak rest' ++ (indentation k ++ rest))
          (fun _ _ => .inr ⟨(Nat.zero_lt_of_lt hk).ne', rfl⟩)
        have hempty := emptyLines?_lines hprint' hbreaks hstart (.inr le_rfl) hnext hstops 0
        have hlength : 0 < line.length := List.length_pos_of_ne_nil nonempty
        rw [List.length_append, List.length_append] at hfuel
        cases fuel with
        | zero => omega
        | succ fuel =>
          rw [hends, htext]
          have hstep := @blockLines?_line c _ p line breaks e m _ indent fuel _ blank nonempty
            hprint hline hc hcbreak hcolumn hempty
          simp only [List.append_assoc, List.cons_append] at hstep ⊢
          rw [hstep, hread _ _ _ _ (by omega)]
          simp

end Lines

/-! ### Whole blocks -/

theorem endLine?_lineFeed :
    endLine? (placed p ('\n' :: rest)) = some (placed (p.next '\n') rest) := by
  rw [placed_cons (by decide)]
  rfl

theorem length_le_linesAt (column : Nat) (newLine : Bool) (cs : List Char) :
    cs.length ≤ (linesAt column (fun c => [c]) newLine cs).length := by
  induction cs generalizing newLine with
  | nil => exact Nat.zero_le _
  | cons c cs ih =>
    rw [linesAt]
    split
    · have := ih true
      simp only [List.length_cons]
      omega
    · have := ih false
      simp only [List.length_append, List.length_cons, List.length_nil]
      omega

/-- A block by its parts: the header, the empty lines before its first line, and its lines. -/
theorem block?_eq {parent given indent reached : Nat} {header : BlockHeader}
    {empty text ending empty' : List Char} {gs gs₁ gs₂ gs₃ gs₄ : List Glyph}
    (hheader : blockHeader? gs = some (header, gs₁)) (hline : endLine? gs₁ = some gs₂)
    (hgiven : header.increment.elim 0 (parent + ·) = given)
    (hempty : emptyLines? given 0 gs₂ = some (empty, reached, gs₃))
    (hindent : (if given = 0 then max reached (parent + 1) else given) = indent)
    (hlines : blockLines? true indent gs₃.length [] empty false gs₃ =
      some (text, ending, empty', gs₄)) :
    block? true parent gs = some (text ++ kept header.chomp ending empty', gs₄) := by
  have hmax : max ((parent : Int) + 1).toNat 1 = parent + 1 := by omega
  obtain ⟨chomp, increment⟩ := header
  rw [block?, hheader]
  cases increment with
  | none =>
    obtain rfl : 0 = given := hgiven
    rw [if_pos rfl] at hindent
    simp only [Option.bind_eq_bind, Option.bind_some, hline, hempty, hmax, if_true, hindent, hlines]
    cases chomp <;> rfl
  | some n =>
    obtain rfl : parent + n = given := hgiven
    simp only [Option.bind_eq_bind, Option.bind_some, hline, Int.natCast_nonneg, if_true,
      Int.toNat_natCast, hempty, hmax, hindent, hlines]
    cases chomp <;> rfl

/-- The hint that comes first gives the column of the lines, or their first character shows it. -/
theorem given_cases (cs : List Char) (parent : Nat) :
    ((incrementOf (indentHint cs)).elim 0 (parent + ·) = parent + 2) ∨
      ((incrementOf (indentHint cs)).elim 0 (parent + ·) = 0 ∧
        ∀ c ∈ cs.head?, isSpace c = false ∧ breaksLine c = false) := by
  cases cs with
  | nil => exact .inr ⟨rfl, fun c hc => by cases hc⟩
  | cons c cs =>
    cases hhint : (isSpace c || breaksLine c) with
    | true =>
      have hint : indentHint (c :: cs) = ['2'] := if_pos hhint
      rw [hint]
      exact .inl rfl
    | false =>
      have hint : indentHint (c :: cs) = [] := if_neg (ne_true_of_eq_false hhint)
      rw [hint]
      exact .inr ⟨rfl, fun _ h => by cases h; exact Bool.or_eq_false_iff.1 hhint⟩

theorem endsLine_of_breaks (h : ∀ c ∈ cs, breaksLine c = true) (hne : cs ≠ []) :
    endsLine cs = true := by
  obtain ⟨front, a, rfl⟩ := cs.eq_nil_or_concat.resolve_left hne
  rw [List.concat_eq_append] at *
  rw [endsLine_concat]
  exact h a (by simp)

theorem chompHint_of_all_breaks (h : ∀ c ∈ cs, breaksLine c = true) (hne : cs ≠ []) :
    chompHint cs = ['+'] := by
  obtain ⟨front, a, rfl⟩ := cs.eq_nil_or_concat.resolve_left hne
  rw [List.concat_eq_append] at *
  have ha : breaksLine a = true := h a (by simp)
  rcases front.eq_nil_or_concat with rfl | ⟨front, b, rfl⟩
  · simp [chompHint, ha]
  · rw [List.concat_eq_append] at *
    have hb : breaksLine b = true := h b (by simp)
    have hpair : front ++ [b] ++ [a] = front ++ [b, a] := by simp
    rw [hpair, chompHint_of_breaks ha, hb]
    rfl

/-- What follows the header of a block reads as a text, up to what comes after the block. -/
def BodyReads (parent given k : Nat) (p : Spot) (cs rest : List Char) : Prop :=
  ∃ empty reached gs text ending empty', ∃ q : Spot, q.column = k ∧
    emptyLines? given 0 (placed p (linesAt (parent + 2) (fun c => [c]) true cs ++
      (lastBreak cs ++ (indentation k ++ rest)))) = some (empty, reached, gs) ∧
    (if given = 0 then max reached (parent + 1) else given) = parent + 2 ∧
    blockLines? true (parent + 2) gs.length [] empty false gs =
      some (text, ending, empty', placed q rest) ∧
    text ++ kept (chompOf (chompHint cs)) ending empty' = cs

section Body

variable {parent k given : Nat} (hk : k < parent + 2) (hrest : Printable rest)
  (hbegin : Begins rest) (hcolumn : p.column = 0) (hcs : Printable cs)

include hk hrest hbegin hcolumn hcs

theorem bodyReads_breaks (hbreaks : ∀ c ∈ cs, breaksLine c = true) (hne : cs ≠ []) :
    BodyReads parent (parent + 2) k p cs rest := by
  have hempty := emptyLines?_lines hcs hbreaks hcolumn (.inr hk.le) hrest
    (stops_of_begins hbegin) 0
  have hq := column_past_breaks hbreaks hcolumn k
  refine ⟨cs, max 0 k, placed _ rest, [], [], cs, _, hq, ?_, if_neg (by omega),
    blockLines?_stop hrest (.inr (hq.trans_lt hk)), ?_⟩
  · rw [linesAt_eq_of_breaks hbreaks, lastBreak, if_pos (endsLine_of_breaks hbreaks hne)]
    exact hempty
  · rw [chompHint_of_all_breaks hbreaks hne]
    rfl

theorem bodyReads_lines {breaks lines : List Char} (hsplit : cs = breaks ++ lines)
    (hbreaks : ∀ c ∈ breaks, breaksLine c = true) (hlines : Lined lines)
    (hgiven : given = parent + 2 ∨
      (given = 0 ∧ ∀ c ∈ cs.head?, isSpace c = false ∧ breaksLine c = false)) :
    BodyReads parent given k p cs rest := by
  subst hsplit
  obtain ⟨hprint, hprint'⟩ := printable_append.1 hcs
  have hq := column_past_breaks hbreaks hcolumn (parent + 2)
  obtain ⟨body, ending, empty, q, hqk, hkept, hread⟩ :=
    blockLines?_lined hlines hprint' hk hrest hbegin hq
  have hfirst : ∀ c ∈ lines.head?, isSpace c = false ∨ (given ≠ 0 ∧ parent + 2 = given) := by
    intro c hc
    rcases hgiven with rfl | ⟨-, hfirst⟩
    · exact .inr ⟨by omega, rfl⟩
    · cases breaks with
      | nil => exact .inl (hfirst c hc).1
      | cons b breaks =>
        have hb := (hfirst b rfl).2
        rw [hbreaks b List.mem_cons_self] at hb
        cases hb
  have hstops : Stops given (parent + 2) (linesAt (parent + 2) (fun c => [c]) false lines ++
      (lastBreak lines ++ (indentation k ++ rest))) := stops_linesAt hlines _ hfirst
  have hempty := emptyLines?_lines hprint hbreaks hcolumn (by omega)
    (printable_body (parent + 2) hprint' k hrest) hstops 0
  refine ⟨breaks, max 0 (parent + 2), _, breaks ++ body, ending, empty, q, hqk, ?_, ?_,
    hread _ [] breaks false ?_, ?_⟩
  · rw [linesAt_breaks_lined hbreaks hlines, lastBreak_append_of_lined hlines, List.append_assoc,
      List.append_assoc]
    exact hempty
  · rcases hgiven with rfl | ⟨rfl, -⟩
    · exact if_neg (by omega)
    · rw [if_pos rfl]
      omega
  · rw [length_placed (printable_body (parent + 2) hprint' k hrest), List.length_append]
    have := length_le_linesAt (parent + 2) false lines
    omega
  · rw [chompHint_append hlines, List.append_assoc, hkept]

end Body

theorem printable_of_blockAllowed (h : blockAllowed cs = true) : Printable cs := by
  simp only [blockAllowed, Bool.and_eq_true, Bool.not_eq_true'] at h
  exact printable_of_needsEscape h.1

theorem blockText_eq (column : Nat) (cs : List Char) :
    blockText column cs = '|' :: (indentHint cs ++ (chompHint cs ++ '\n' ::
      (linesAt column (fun c => [c]) true cs ++ lastBreak cs))) := by
  simp only [blockText, lastBreak, List.append_assoc, List.cons_append]

theorem printable_blockText (column : Nat) (h : blockAllowed cs = true) :
    Printable (blockText column cs) := by
  have hindent : Printable (indentHint cs) := by
    rcases indentHint_cases cs with hhint | hhint <;> rw [hhint] <;> simp [Printable, isPrintable]
  have hchomp : Printable (chompHint cs) := by
    rcases chompHint_cases cs with hhint | hhint | hhint <;> rw [hhint] <;>
      simp [Printable, isPrintable]
  have hlines : Printable (linesAt column (fun c => [c]) true cs) :=
    printable_linesAt (fun _ hc => List.forall_mem_singleton.2 hc) (printable_of_blockAllowed h)
  rw [blockText_eq]
  simp only [printable_cons, printable_append]
  exact ⟨by decide, hindent, hchomp, by decide, hlines, printable_lastBreak cs⟩

/-- A block holds the text that is written. -/
theorem block?_text {parent k : Nat} (h : blockAllowed cs = true) (hne : cs ≠ [])
    (hk : k < parent + 2) (hrest : Printable rest) (hbegin : Begins rest) :
    ∃ q : Spot, q.column = k ∧ block? true parent
      ((placed p (blockText (parent + 2) cs ++ (indentation k ++ rest))).drop 1) =
        some (cs, placed q rest) := by
  have hcs := printable_of_blockAllowed h
  have htext : blockText (parent + 2) cs ++ (indentation k ++ rest) = '|' :: (indentHint cs ++
      chompHint cs ++ '\n' :: (linesAt (parent + 2) (fun c => [c]) true cs ++
        (lastBreak cs ++ (indentation k ++ rest)))) := by
    simp only [blockText_eq, List.append_assoc, List.cons_append]
  rw [htext, placed_cons (by decide), List.drop_one, List.tail_cons]
  have hheader := blockHeader?_hints (p := p.next '|') cs
    (linesAt (parent + 2) (fun c => [c]) true cs ++ (lastBreak cs ++ (indentation k ++ rest)))
  have hstart : (((p.next '|').past (indentHint cs ++ chompHint cs)).next '\n').column = 0 := by
    rw [Spot.next_break (by decide)]
  have hbody : BodyReads parent ((incrementOf (indentHint cs)).elim 0 (parent + ·)) k
      (((p.next '|').past (indentHint cs ++ chompHint cs)).next '\n') cs rest := by
    obtain ⟨breaks, lines, hsplit, hbreaks, hlines⟩ := lined_or_breaks cs
    rcases hlines with rfl | hlines
    · rw [List.append_nil] at hsplit
      subst hsplit
      have hgiven : (incrementOf (indentHint cs)).elim 0 (parent + ·) = parent + 2 := by
        refine (given_cases cs parent).resolve_right fun h => ?_
        cases cs with
        | nil => exact hne rfl
        | cons c cs =>
          have hc := (h.2 c rfl).2
          rw [hbreaks c List.mem_cons_self] at hc
          cases hc
      rw [hgiven]
      exact bodyReads_breaks hk hrest hbegin hstart hcs hbreaks hne
    · exact bodyReads_lines hk hrest hbegin hstart hcs hsplit hbreaks hlines (given_cases cs parent)
  obtain ⟨empty, reached, gs, text, ending, empty', q, hq, hempty, hindent, hlines, hkept⟩ := hbody
  refine ⟨q, hq, ?_⟩
  have hblock := block?_eq hheader endLine?_lineFeed rfl hempty hindent hlines
  rw [hkept] at hblock
  exact hblock

end Federation.Yaml
