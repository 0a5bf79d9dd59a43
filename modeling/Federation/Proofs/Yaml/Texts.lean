import Federation.Proofs.Yaml.Marks

/-!
# Texts read back

Whatever style a text is written in, the scanner takes it as one scalar, which holds the text and is
plain only if it was written plain. This holds of a text that is a value and of one that is a key.
-/

namespace Federation.Yaml

variable {s : String} {c : Char} {cs rest tail : List Char} {p q : Spot}
  {ts opening result : List Token} {columns columns' outer : List Nat} {allowed : Bool}
  {column j k : Nat}

/-- The token of a text. -/
def textToken (s : String) : Token :=
  .scalar (styleOf s = .plain) s

/-! ### Styles -/

theorem of_style_plain (h : styleOf s = .plain) :
    resemblesOther s = false ∧ plainAllowed s.toList = true := by
  unfold styleOf at h
  dsimp only at h
  split_ifs at h with lineFeed block plain single
  simpa using plain

theorem of_style_single (h : styleOf s = .single) :
    '\n' ∉ s.toList ∧ singleAllowed s.toList = true := by
  unfold styleOf at h
  dsimp only at h
  split_ifs at h with lineFeed block plain single
  exact ⟨by simpa using lineFeed, single⟩

theorem of_style_block (h : styleOf s = .block) :
    '\n' ∈ s.toList ∧ blockAllowed s.toList = true := by
  unfold styleOf at h
  dsimp only at h
  split_ifs at h with lineFeed block
  exact ⟨by simpa using lineFeed, block⟩

theorem exists_cons_of_plain (h : styleOf s = .plain) : ∃ c rest, s.toList = c :: rest := by
  cases hs : s.toList with
  | nil =>
    have hempty : s.isEmpty = true := by
      rw [String.isEmpty_iff, ← String.toList_inj, hs]
      rfl
    have := (of_style_plain h).1
    rw [resemblesOther, hempty] at this
    cases this
  | cons c rest => exact ⟨c, rest, rfl⟩

/-- What begins a plain text is no gap and no mark. -/
theorem isMark_of_plain (h : plainAllowed (c :: rest) = true) :
    isMark c = false ∧ isSpace c = false ∧ breaksLine c = false ∧ isPrintable c = true := by
  obtain ⟨escape, oneLine, hfirst, -, -, hstart, -⟩ := plainAllowed_iff.1 h
  rw [startsWithMark, Bool.or_eq_false_iff] at hstart
  rw [List.any_cons, Bool.or_eq_false_iff] at oneLine
  exact ⟨hstart.1, decide_eq_false fun h => hfirst (congrArg some h), oneLine.1,
    (printable_cons.1 (printable_of_needsEscape escape)).1⟩

theorem ne_of_isMark {d : Char} (h : isMark c = false) (hd : isMark d = true) : c ≠ d := by
  rintro rfl
  rw [hd] at h
  cases h

/-- A text of one style on its own, without what follows it. -/
def inlineText (column : Nat) (s : String) : List Char :=
  match styleOf s with
  | .plain => s.toList
  | .single => singleQuoted column s.toList
  | .double => doubleQuoted s.toList
  | .block => []

theorem textLine_eq (h : styleOf s ≠ .block) :
    textLine column s = inlineText column s ++ ['\n'] := by
  rw [textLine, inlineText]
  cases hs : styleOf s with
  | plain => rfl
  | single => rfl
  | double => rfl
  | block => exact absurd hs h

theorem printable_inlineText (column : Nat) (s : String) : Printable (inlineText column s) := by
  unfold inlineText
  cases h : styleOf s with
  | plain => exact printable_of_needsEscape (plainAllowed_iff.1 (of_style_plain h).2).1
  | single => exact printable_singleQuoted column (printable_of_singleAllowed (of_style_single h).2)
  | double => exact printable_doubleQuoted _
  | block => exact printable_nil

theorem begins_inlineText (column : Nat) (h : styleOf s ≠ .block) (tail : List Char) :
    Begins (inlineText column s ++ tail) := by
  unfold inlineText
  cases hs : styleOf s with
  | plain =>
    obtain ⟨c, rest, hcons⟩ := exists_cons_of_plain hs
    obtain ⟨hmark, hspace, hbreak, -⟩ := isMark_of_plain (hcons ▸ (of_style_plain hs).2)
    rw [hcons]
    rintro _ ⟨⟩
    exact ⟨hspace, hbreak, ne_of_isMark hmark (by decide)⟩
  | single => rintro _ ⟨⟩; decide
  | double => rintro _ ⟨⟩; decide
  | block => exact absurd hs h

theorem inlineText_ne_nil (column : Nat) (h : styleOf s ≠ .block) : inlineText column s ≠ [] := by
  unfold inlineText
  cases hs : styleOf s with
  | plain =>
    obtain ⟨c, rest, hcons⟩ := exists_cons_of_plain hs
    rw [hcons]
    exact List.cons_ne_nil _ _
  | single => exact List.cons_ne_nil _ _
  | double => exact List.cons_ne_nil _ _
  | block => exact absurd hs h

/-! ### One scalar -/

namespace Scan

theorem glyphs_before : (before p cs ts columns allowed).glyphs = placed p cs :=
  rfl

/-- A scalar that may be a key leaves the scanner behind its text. -/
theorem content?_before {t : Token} {gs : List Glyph} :
    (before p cs ts columns allowed).content? ⟨c, p.index, p.line, p.column⟩ (some (t, gs)) =
      some ⟨gs, (ts ++ [t]).toArray, columns, [noted p ts columns allowed], false⟩ := by
  rw [content?, noteKey?_before]
  simp [before]

/-- A quoted scalar, from its quote on. -/
theorem step?_quoted {d : Char} {text : List Char}
    {read : List Glyph → Option (List Char × List Glyph)} (hs : styleOf s ≠ .plain)
    (hprint : Printable (d :: text)) (hbegin : Begins (d :: text))
    (hhead : ∀ k ∈ columns.head?, k ≤ p.column)
    (htoken : ∀ (sc : Scan) (g : Glyph), charAt sc.glyphs 0 = d → g.char = d →
      sc.token? g = sc.content? g ((read (sc.glyphs.drop 1)).map
        fun (cs, rest) => (.scalar false (String.ofList cs), rest)))
    (hread : read ((placed p (d :: text)).drop 1) = some (s.toList, placed q tail)) :
    (before p (d :: text) ts columns allowed).step? =
      some (⟨placed q tail, (ts ++ [textToken s]).toArray, columns, [noted p ts columns allowed],
        false⟩, false) := by
  have hquoted : textToken s = .scalar false s := by rw [textToken, decide_eq_false hs]
  have hd := (printable_cons.1 hprint).1
  rw [step?_before hprint hbegin hhead, htoken _ _ (charAt_before hd) rfl, glyphs_before, hread,
    Option.map_some, content?_before, String.ofList_toList, hquoted]
  rfl

theorem step?_single (h : styleOf s = .single) (hcolumn : 0 < column) (htail : Printable tail)
    (hend : ahead tail ≠ '\x27') (hhead : ∀ k ∈ columns.head?, k ≤ p.column) :
    (before p (inlineText column s ++ tail) ts columns allowed).step? =
      some (⟨placed (p.past (inlineText column s)) tail, (ts ++ [textToken s]).toArray, columns,
        [noted p ts columns allowed], false⟩, false) := by
  obtain ⟨lineFeed, hallowed⟩ := of_style_single h
  have hread := singleQuoted?_text (p := p) hcolumn hallowed lineFeed htail hend
  have hprint := printable_append.2 ⟨printable_inlineText column s, htail⟩
  have hbegin := begins_inlineText column (s := s) (by rw [h]; decide) tail
  have hinline : inlineText column s = singleQuoted column s.toList := by rw [inlineText, h]
  rw [hinline] at hprint hbegin ⊢
  exact step?_quoted (by rw [h]; decide) hprint hbegin hhead (fun _ _ => token?_single) hread

theorem step?_double (column : Nat) (h : styleOf s = .double) (htail : Printable tail)
    (hhead : ∀ k ∈ columns.head?, k ≤ p.column) :
    (before p (inlineText column s ++ tail) ts columns allowed).step? =
      some (⟨placed (p.past (inlineText column s)) tail, (ts ++ [textToken s]).toArray, columns,
        [noted p ts columns allowed], false⟩, false) := by
  have hread := doubleQuoted?_text (p := p) s.toList tail
  have hprint := printable_append.2 ⟨printable_inlineText column s, htail⟩
  have hbegin := begins_inlineText column (s := s) (by rw [h]; decide) tail
  have hinline : inlineText column s = doubleQuoted s.toList := by rw [inlineText, h]
  rw [hinline] at hprint hbegin ⊢
  exact step?_quoted (by rw [h]; decide) hprint hbegin hhead (fun _ _ => token?_double) hread

/-- What may follow a plain text: a gap, the end, or the colon that makes it a key. -/
def Ends (tail : List Char) : Prop :=
  separated tail = true ∨ ahead tail = ':'

theorem ahead_ne_of_ends {d : Char} (h : Ends tail) (hd : separates d = false) (hcolon : d ≠ ':') :
    ahead tail ≠ d := by
  rintro rfl
  rcases h with h | h
  · cases tail with
    | nil => cases hd
    | cons c tail => exact Bool.false_ne_true (hd.symm.trans h)
  · exact hcolon h

theorem isTriple_placed {d : Char} (h : startsLikeDocument cs = false) (hd : d = '-' ∨ d = '.')
    (hne : cs ≠ []) (hprint : Printable (cs ++ tail)) (hend : ahead tail ≠ d) :
    isTriple d (placed p (cs ++ tail)) = false := by
  by_contra htriple
  simp only [isTriple, charAt_placed_getD hprint, Bool.not_eq_false, Bool.and_eq_true,
    decide_eq_true_eq] at htriple
  obtain ⟨⟨⟨h0, h1⟩, h2⟩, -⟩ := htriple
  have htail : tail.getD 0 '\x00' ≠ d := by
    cases tail <;> exact hend
  rcases cs with _ | ⟨a, _ | ⟨b, _ | ⟨c, rest⟩⟩⟩
  · exact hne rfl
  · exact htail h1
  · exact htail h2
  · simp only [List.cons_append, List.getD_cons_zero, List.getD_cons_succ] at h0 h1 h2
    subst h0 h1 h2
    rcases hd with rfl | rfl <;> simp [startsLikeDocument] at h

theorem token?_plain {sc : Scan} (h : plainAllowed (c :: rest) = true) (htail : Printable tail)
    (hend : Ends tail) (hflow : sc.inFlow = false)
    (hglyphs : sc.glyphs = placed p (c :: rest ++ tail)) :
    sc.token? ⟨c, p.index, p.line, p.column⟩ = sc.plainScalar? ⟨c, p.index, p.line, p.column⟩ := by
  obtain ⟨hmark, hspace, hbreak, hc⟩ := isMark_of_plain h
  obtain ⟨escape, -, -, -, hdocument, hstart, -⟩ := plainAllowed_iff.1 h
  have hprint := printable_append.2 ⟨printable_of_needsEscape escape, htail⟩
  have hahead : ∀ d, d = '-' ∨ d = '.' → ahead tail ≠ d := by
    rintro d (rfl | rfl) <;> exact ahead_ne_of_ends hend (by decide) (by decide)
  have hminus := isTriple_placed (p := p) hdocument (.inl rfl) (List.cons_ne_nil _ _) hprint
    (hahead _ (.inl rfl))
  have hdot := isTriple_placed (p := p) hdocument (.inr rfl) (List.cons_ne_nil _ _) hprint
    (hahead _ (.inr rfl))
  have hnext : c = '?' ∨ c = ':' ∨ c = '-' → isGap (charAt sc.glyphs 1) = false := by
    intro hcase
    simp only [startsWithMark, Bool.or_eq_false_iff, Bool.and_eq_false_iff] at hstart
    have hrest : separated rest = false := by
      rcases hcase with rfl | rfl | rfl <;> simpa using hstart.2
    rw [hglyphs, charAt_placed_getD hprint]
    cases rest with
    | nil => cases hrest
    | cons d rest =>
      have hd : isPrintable d = true := hprint d (by simp)
      exact (separates_of_isPrintable hd).symm.trans hrest
  rw [← hglyphs] at hminus hdot
  simp only [isMark, decide_eq_false_iff_not, List.mem_cons, not_or, List.not_mem_nil,
    not_false_eq_true, and_true] at hmark
  have hbegins : beginsPlain sc.inFlow c (charAt sc.glyphs 1) = true := by
    have hgap : isGap c = false := by rw [isGap_of_isPrintable hc, hspace, hbreak]; rfl
    by_cases hcase : c = '?' ∨ c = ':' ∨ c = '-'
    · have hafter := hnext hcase
      have hblank : isBlank (charAt sc.glyphs 1) = false := by
        simp only [isGap, Bool.or_eq_false_iff] at hafter
        exact hafter.1
      rcases hcase with rfl | rfl | rfl <;> simp [beginsPlain, hflow, hafter, hblank]
    · simp only [not_or] at hcase
      simp [beginsPlain, hgap, hcase, hmark]
  have hnogap : ∀ d, d = '?' ∨ d = ':' ∨ d = '-' →
      (decide (c = d) && isGap (charAt sc.glyphs 1)) = false := by
    rintro d hd
    by_cases hcd : c = d
    · rw [hnext (hcd ▸ hd), Bool.and_false]
    · rw [decide_eq_false hcd, Bool.false_and]
  rw [hflow] at hbegins
  simp [token?, hminus, hdot, hmark, hflow, hbegins, hnogap]

theorem plainScalar?_before {newLine : Bool} {gs : List Glyph} {text : List Char}
    (hread : plain? ⟨false, depth columns + 1⟩ {} (placed p cs) = some (text, newLine, gs)) :
    (before p cs ts columns allowed).plainScalar? ⟨c, p.index, p.line, p.column⟩ =
      some ⟨gs, (ts ++ [Token.scalar true (String.ofList text)]).toArray, columns,
        [noted p ts columns allowed], newLine⟩ := by
  rw [plainScalar?, noteKey?_before]
  cases columns with
  | nil =>
    change (plain? ⟨false, depth [] + 1⟩ {} (placed p cs)).bind _ = _
    rw [hread]
    simp [before]
  | cons k outer =>
    change (plain? ⟨false, depth (k :: outer) + 1⟩ {} (placed p cs)).bind _ = _
    rw [hread]
    simp [before]

/-- A plain scalar, up to where it ends. -/
theorem step?_plain {newLine : Bool} {gs : List Glyph} (h : styleOf s = .plain)
    (htail : Printable tail) (hend : Ends tail)
    (hread : plain? ⟨false, depth columns + 1⟩ {}
      (placed (p.past (inlineText column s)) tail) = some ([], newLine, gs))
    (hhead : ∀ k ∈ columns.head?, k ≤ p.column) :
    (before p (inlineText column s ++ tail) ts columns allowed).step? =
      some (⟨gs, (ts ++ [textToken s]).toArray, columns,
        [noted p ts columns allowed], newLine⟩, false) := by
  have hallowed := (of_style_plain h).2
  have hprint := printable_append.2 ⟨printable_inlineText column s, htail⟩
  have hbegin := begins_inlineText column (s := s) (by rw [h]; decide) tail
  have hinline : inlineText column s = s.toList := by rw [inlineText, h]
  have htoken : textToken s = .scalar true s := by rw [textToken, h]; rfl
  have hdepth : depth columns + 1 ≤ p.column + 1 := by
    cases columns with
    | nil => simp only [depth]; omega
    | cons k outer =>
      have := hhead k rfl
      simp only [depth]
      omega
  rw [hinline] at hprint hbegin hread ⊢
  rw [htoken]
  obtain ⟨c, rest, hcons⟩ := exists_cons_of_plain h
  have htext : String.ofList (c :: rest) = s := by rw [← hcons, String.ofList_toList]
  rw [hcons] at hallowed hprint hbegin hread ⊢
  have hplain : plain? ⟨false, depth columns + 1⟩ {} (placed p (c :: rest ++ tail)) = _ :=
    plain?_text rfl hallowed hdepth htail
  rw [hread, Option.map_some] at hplain
  rw [List.cons_append] at hprint hbegin hplain ⊢
  rw [step?_before hprint hbegin hhead,
    token?_plain hallowed htail hend rfl rfl, plainScalar?_before hplain]
  simp [htext]

/-! ### Values -/

theorem column_line (p : Spot) (j : Nat) : (p.past ('\n' :: indentation j)).column = j :=
  Spot.column_newLine (by decide) j

theorem line_line (p : Spot) (j : Nat) : (p.past ('\n' :: indentation j)).line = p.line + 1 := by
  rw [Spot.past_cons, Spot.past_indentation, Spot.next_break (by decide)]

theorem blockScalar?_before {text : List Char} (ts : List Token) (outer : List Nat) (allowed : Bool)
    (hread : block? true k ((placed p cs).drop 1) = some (text, placed q rest)) :
    (before p cs ts (k :: outer) allowed).blockScalar? true =
      some (before q rest (ts ++ [Token.scalar false (String.ofList text)]) (k :: outer) true) := by
  have hforget : (before p cs ts (k :: outer) allowed).forgetKey? =
      some (before p cs ts (k :: outer) allowed) := rfl
  have hindent : (before p cs ts (k :: outer) allowed).indent = k := rfl
  rw [blockScalar?, hforget]
  simp only [Option.bind_eq_bind, Option.bind_some, hindent]
  rw [glyphs_before, hread]
  simp [before]

theorem printable_nextLine (h : Printable rest) (j : Nat) :
    Printable ('\n' :: indentation j ++ rest) :=
  printable_append.2 ⟨printable_cons.2 ⟨by decide, printable_indentation j⟩, h⟩

section Values

variable (hk : k < column) (hj : j ≤ k) (hbegin : Begins rest)
  (h : Reads true j rest (ts ++ [textToken s]) (k :: outer) result)

include hk hbegin h

/-- A plain scalar passes over the indentation of the next line; a quoted one does not. -/
theorem yields_plain (hp : p.column = column) (hj : j ≤ k) (hs : styleOf s = .plain) :
    (before p (inlineText (k + 2) s ++ ('\n' :: indentation j ++ rest)) ts (k :: outer)
      allowed).Yields result := by
  have hhead : ∀ i ∈ (k :: outer).head?, i < p.column := by rintro _ ⟨⟩; omega
  have htail := printable_nextLine h.printable j
  have hprint := printable_append.2 ⟨printable_inlineText (k + 2) s, htail⟩
  have hread : plain? ⟨false, depth (k :: outer) + 1⟩ {} (placed (p.past (inlineText (k + 2) s))
      ('\n' :: indentation j ++ rest)) = _ :=
    plain?_line rfl h.printable hbegin (.inr (by simp only [depth]; omega))
  have hstep : (before p (inlineText (k + 2) s ++ ('\n' :: indentation j ++ rest)) ts (k :: outer)
      allowed).step? = _ :=
    step?_plain hs htail (.inl rfl) hread fun i hi => (hhead i hi).le
  have hidle : Idle (noted p ts (k :: outer) allowed)
      ((p.past (inlineText (k + 2) s)).past ('\n' :: indentation j)).line := by
    intro key hkey
    have := p.line_le_past (inlineText (k + 2) s)
    rw [line_line]
    exact ⟨required_of_noted hhead hkey, by rw [(line_of_noted hkey).1]; omega⟩
  refine Yields.of_step ?_ hstep ?_
  · refine (h.yields _ (column_line (p.past (inlineText (k + 2) s)) j)).of_step_eq
      (step?_eq rfl rfl rfl (skipGap_begins h.printable hbegin) h.printable hbegin hidle) le_rfl
  · rw [glyphs_before, length_placed h.printable, length_placed hprint]
    simp
    omega

theorem yields_quoted (hp : p.column = column)
    (hstep : (before p (inlineText (k + 2) s ++ ('\n' :: indentation j ++ rest)) ts (k :: outer)
      allowed).step? =
        some (⟨placed (p.past (inlineText (k + 2) s)) ('\n' :: indentation j ++ rest),
          (ts ++ [textToken s]).toArray, k :: outer, [noted p ts (k :: outer) allowed], false⟩,
          false))
    (hne : inlineText (k + 2) s ≠ []) :
    (before p (inlineText (k + 2) s ++ ('\n' :: indentation j ++ rest)) ts (k :: outer)
      allowed).Yields result := by
  have hhead : ∀ i ∈ (k :: outer).head?, i < p.column := by rintro _ ⟨⟩; omega
  have htail := printable_nextLine h.printable j
  have hprint := printable_append.2 ⟨printable_inlineText (k + 2) s, htail⟩
  refine Yields.of_step ?_ hstep ?_
  · refine yields_line rfl rfl rfl rfl (fun key hkey => ?_) hbegin h
    exact ⟨required_of_noted hhead hkey, (line_of_noted hkey).1.le.trans (p.line_le_past _)⟩
  · have := List.length_pos_of_ne_nil hne
    simp only [glyphs_before, length_placed htail, length_placed hprint,
      @List.length_append _ (inlineText (k + 2) s)]
    omega

end Values

/-- A text that is a value, and the indentation of the line after it. -/
theorem reads_text (hk : k < column) (hj : j ≤ k) (hbegin : Begins rest)
    (h : Reads true j rest (ts ++ [textToken s]) (k :: outer) result) :
    Reads allowed column (textLine (k + 2) s ++ (indentation j ++ rest)) ts (k :: outer)
      result := by
  have htail := printable_nextLine h.printable j
  have hprint := printable_append.2 ⟨printable_inlineText (k + 2) s, htail⟩
  have hhead : ∀ p : Spot, p.column = column → ∀ i ∈ (k :: outer).head?, i ≤ p.column := by
    rintro p hp _ ⟨⟩
    omega
  have hinline : styleOf s ≠ .block → textLine (k + 2) s ++ (indentation j ++ rest) =
      inlineText (k + 2) s ++ ('\n' :: indentation j ++ rest) := by
    intro hs
    rw [textLine_eq hs, List.append_assoc]
    rfl
  cases hs : styleOf s with
  | plain =>
    rw [hinline (by rw [hs]; decide)]
    exact ⟨hprint, fun p hp => yields_plain hk hbegin h hp hj hs⟩
  | single =>
    rw [hinline (by rw [hs]; decide)]
    refine ⟨hprint, fun p hp => ?_⟩
    have hend : ahead ('\n' :: indentation j ++ rest) ≠ '\x27' :=
      ahead_ne_of_ends (.inl rfl) (by decide) (by decide)
    exact yields_quoted hk hbegin h hp
      (step?_single hs (Nat.succ_pos (k + 1)) htail hend (hhead p hp))
      (inlineText_ne_nil _ (by rw [hs]; decide))
  | double =>
    rw [hinline (by rw [hs]; decide)]
    refine ⟨hprint, fun p hp => ?_⟩
    exact yields_quoted hk hbegin h hp (step?_double (k + 2) hs htail (hhead p hp))
      (inlineText_ne_nil _ (by rw [hs]; decide))
  | block =>
    obtain ⟨lineFeed, hallowed⟩ := of_style_block hs
    have hne : s.toList ≠ [] := List.ne_nil_of_mem lineFeed
    have hwritten : textLine (k + 2) s = blockText (k + 2) s.toList := by rw [textLine, hs]
    have htoken : textToken s = .scalar false s := by rw [textToken, hs]; rfl
    have hprint := printable_append.2 ⟨printable_blockText (k + 2) hallowed,
      printable_append.2 ⟨printable_indentation j, h.printable⟩⟩
    rw [hwritten]
    refine ⟨hprint, fun p hp => ?_⟩
    have hdeeper : j < k + 2 := by omega
    obtain ⟨q, hq, hread⟩ := block?_text (p := p) hallowed hne hdeeper h.printable hbegin
    have hscalar := blockScalar?_before ts outer allowed hread
    rw [String.ofList_toList, ← htoken] at hscalar
    have hcons : ∃ cs, blockText (k + 2) s.toList ++ (indentation j ++ rest) = '|' :: cs :=
      ⟨_, by rw [blockText_eq]; rfl⟩
    obtain ⟨cs, hcons⟩ := hcons
    rw [hcons] at hscalar hprint ⊢
    have hstep : (before p ('|' :: cs) ts (k :: outer) allowed).step? = _ :=
      step?_before hprint (by rintro _ ⟨⟩; decide) (hhead p hp)
    rw [token?_block (charAt_before (by decide)) rfl rfl, hscalar] at hstep
    have hlength := congrArg List.length hcons
    simp only [blockText_eq, List.length_append, List.length_cons] at hlength
    refine (h.yields q hq).of_step hstep ?_
    simp only [glyphs_before, length_placed h.printable, length_placed hprint, List.length_cons]
    omega

/-! ### Keys -/

theorem step?_inline (hs : styleOf s ≠ .block) (hcolumn : 0 < column) (hrest : Printable rest)
    (hgap : separated rest = true) (hhead : ∀ k ∈ columns.head?, k ≤ p.column) :
    (before p (inlineText column s ++ ':' :: rest) ts columns allowed).step? =
      some (⟨placed (p.past (inlineText column s)) (':' :: rest), (ts ++ [textToken s]).toArray,
        columns, [noted p ts columns allowed], false⟩, false) := by
  have htail : Printable (':' :: rest) := printable_cons.2 ⟨by decide, hrest⟩
  cases h : styleOf s with
  | plain => exact step?_plain h htail (.inr rfl) (plain?_colon rfl hrest hgap) hhead
  | single =>
    exact step?_single h hcolumn htail (ahead_ne_of_ends (.inr rfl) (by decide) (by decide)) hhead
  | double => exact step?_double column h htail hhead
  | block => exact absurd h hs

/-- The colon after a key puts the key before the text that has been read. -/
theorem token?_colon (ts : List Token)
    (hopen : Opens .blockMappingStart p.column columns opening columns')
    (hrest : Printable rest) (hgap : separated rest = true) (t : Token) :
    token? ⟨placed q (':' :: rest), (ts ++ [t]).toArray, columns, [noted p ts columns true], false⟩
        ⟨':', q.index, q.line, q.column⟩ =
      some (before (q.next ':') rest (ts ++ opening ++ [.key, t, .value]) columns' false) := by
  have hcolon : placed q (':' :: rest) =
      ⟨':', q.index, q.line, q.column⟩ :: placed (q.next ':') rest := placed_cons (by decide)
  have hafter : isGap (charAt (placed q (':' :: rest)) 1) = true := by
    rw [hcolon, charAt_cons, charAt_placed hrest, isGap_ahead hrest, hgap]
  rw [token?_value (by rw [hcolon]; rfl) hafter rfl rfl, value?]
  have hkey : (ts ++ [t]).toArray.insertIdxIfInBounds ts.length .key =
      (ts ++ [.key, t]).toArray := by
    rw [List.insertIdxIfInBounds_toArray, insertIdx_length]
  have hroll : roll ⟨placed q (':' :: rest), (ts ++ [.key, t]).toArray, columns, [none], false⟩
      p.column .blockMappingStart ts.length = _ := roll_of_opens hopen rfl rfl rfl
  simp only [noted, if_true, hkey, hroll]
  simp [before, push, drop, hcolon]

theorem any_flatMap_eq_false {render : Char → List Char} {f : Char → Bool}
    (h : ∀ c ∈ cs, (render c).any f = false) : (cs.flatMap render).any f = false := by
  rw [List.any_flatMap, List.any_eq_false]
  intro c hc
  rw [h c hc]
  exact Bool.false_ne_true

theorem any_inlineText (column : Nat) (h : s.toList.any breaksLine = false) :
    (inlineText column s).any breaksLine = false := by
  unfold inlineText
  cases styleOf s with
  | plain => exact h
  | single =>
    have hchars : (s.toList.flatMap singleChar).any breaksLine = false :=
      any_flatMap_eq_false fun c hc =>
        any_singleChar (eq_false_of_ne_true (List.any_eq_false.1 h c hc))
    simp only [singleQuoted_of_oneLine column h, List.any_append, List.any_cons, hchars]
    decide
  | double =>
    have hchars : (s.toList.flatMap doubleChar).any breaksLine = false :=
      any_flatMap_eq_false fun c _ => any_doubleChar c
    simp only [doubleQuoted, List.any_append, List.any_cons, hchars]
    decide
  | block => rfl

/-- A text of one line does not become much longer when it is written. -/
theorem utf8Len_inlineText (column : Nat) (h : s.toList.any breaksLine = false) :
    String.utf8Len (inlineText column s) ≤ 6 * s.utf8ByteSize + 2 := by
  have hsize : String.utf8Len s.toList = s.utf8ByteSize := by
    rw [← String.utf8ByteSize_ofList, String.ofList_toList]
  have hquotes : ∀ c : Char, c.utf8Size = 1 → ∀ cs, String.utf8Len (c :: cs ++ [c]) =
      String.utf8Len cs + 2 := by
    intro c hc cs
    simp only [String.utf8Len_append, String.utf8Len_cons, String.utf8Len_nil, hc]
  unfold inlineText
  cases styleOf s with
  | plain =>
    dsimp only
    omega
  | single =>
    have := utf8Len_flatMap_le utf8Len_singleChar s.toList
    simp only [singleQuoted_of_oneLine column h, hquotes '\x27' rfl]
    omega
  | double =>
    have := utf8Len_flatMap_le (fun c => utf8Len_of_shows (shows_doubleChar c)) s.toList
    simp only [doubleQuoted, hquotes '\x22' rfl]
    omega
  | block => exact Nat.zero_le _

theorem ne_block_of_simple (hsimple : isSimpleKey s = true) : styleOf s ≠ .block := by
  intro hs
  simp only [isSimpleKey, Bool.and_eq_true, Bool.not_eq_true'] at hsimple
  exact List.any_eq_false.1 hsimple.1 _ (of_style_block hs).1 (by decide)

/-- A key that is not marked, and its colon. -/
theorem reads_simpleKey (hsimple : isSimpleKey s = true)
    (hopen : Opens .blockMappingStart k columns opening columns') (hgap : separated rest = true)
    (h : ∀ column, k < column →
      Reads false column rest (ts ++ opening ++ [.key, textToken s, .value]) columns' result) :
    Reads true k (inlineText (k + 2) s ++ ':' :: rest) ts columns result := by
  have hs := ne_block_of_simple hsimple
  simp only [isSimpleKey, Bool.and_eq_true, Bool.not_eq_true', decide_eq_true_eq] at hsimple
  obtain ⟨oneLine, hsize⟩ := hsimple
  have hrest := (h (k + 1) (Nat.lt_succ_self k)).printable
  have hprint' : Printable (':' :: rest) := printable_cons.2 ⟨by decide, hrest⟩
  have hprint := printable_append.2 ⟨printable_inlineText (k + 2) s, hprint'⟩
  refine ⟨hprint, ?_⟩
  rintro p rfl
  have hplace := Spot.past_eq (p := p) (any_inlineText (p.column + 2) oneLine)
  have hlength := utf8Len_inlineText (p.column + 2) oneLine
  have hscalar :
      (before p (inlineText (p.column + 2) s ++ ':' :: rest) ts columns true).step? = _ :=
    step?_inline hs (Nat.succ_pos _) hrest hgap (head_le_of_opens hopen)
  have hcolon := token?_colon (q := p.past (inlineText (p.column + 2) s)) ts hopen hrest hgap
    (textToken s)
  have hne := inlineText_ne_nil (p.column + 2) hs
  generalize p.past (inlineText (p.column + 2) s) = q at hplace hscalar hcolon
  -- at most 6 * 128 + 2 octets on one line, so that the key is still known at its colon
  have hfresh : ∀ key ∈ noted p ts columns true,
      key.isStale ⟨':', q.index, q.line, q.column⟩ = false := by
    intro key hkey
    obtain ⟨hline, hindex⟩ := line_of_noted hkey
    simp only [KeyStart.isStale, hplace, Bool.or_eq_false_iff, decide_eq_false_iff_not]
    omega
  have hmark := step?_token (s := ⟨placed q (':' :: rest), (ts ++ [textToken s]).toArray, columns,
    [noted p ts columns true], false⟩) rfl rfl hprint' (by rintro _ ⟨⟩; decide) hfresh
    (fun i hi => by rw [hplace]; exact (head_le_of_opens hopen i hi).trans (Nat.le_add_right _ _))
  rw [hcolon] at hmark
  have hnext : (q.next ':').column = q.column + 1 := by rw [Spot.next_char (by decide)]
  have hdeeper : p.column < q.column + 1 := by rw [hplace]; dsimp only; omega
  refine (((h _ hdeeper).yields _ hnext).of_step hmark ?_).of_step hscalar ?_
  · simp only [before, length_placed hrest, length_placed hprint', List.length_cons]
    omega
  · have := List.length_pos_of_ne_nil hne
    simp only [before, length_placed hprint', length_placed hprint,
      @List.length_append _ (inlineText (p.column + 2) s)]
    omega

end Scan

end Federation.Yaml
