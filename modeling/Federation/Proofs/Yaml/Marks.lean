import Federation.Proofs.Yaml.Steps

/-!
# Marks read back

Each mark that is printed is taken as a token, and the scanner stands before what follows it. A
collection is opened at a column where none is open yet.
-/

namespace Federation.Yaml.Scan

variable {c : Char} {cs rest : List Char} {p q : Spot} {s : Scan} {g : Glyph}
  {ts opening result : List Token} {columns columns' outer : List Nat} {allowed : Bool}
  {column j k : Nat}

/-- From a column on, wherever that is in a text, the scanner reads these tokens. -/
structure Reads (allowed : Bool) (column : Nat) (text : List Char) (ts : List Token)
    (columns : List Nat) (result : List Token) : Prop where
  printable : Printable text
  yields : ∀ p : Spot, p.column = column → (before p text ts columns allowed).Yields result

/-! ### What a token begins with -/

theorem token?_single (h : charAt s.glyphs 0 = '\x27') (hg : g.char = '\x27') :
    s.token? g = s.content? g ((singleQuoted? {} (s.glyphs.drop 1)).map
      fun (cs, rest) => (.scalar false (String.ofList cs), rest)) := by
  simp [token?, hg, isTriple, h]

theorem token?_double (h : charAt s.glyphs 0 = '\x22') (hg : g.char = '\x22') :
    s.token? g = s.content? g ((doubleQuoted? {} (s.glyphs.drop 1)).map
      fun (cs, rest) => (.scalar false (String.ofList cs), rest)) := by
  simp [token?, hg, isTriple, h]

theorem token?_block (h : charAt s.glyphs 0 = '|') (hg : g.char = '|') (hflow : s.inFlow = false) :
    s.token? g = s.blockScalar? true := by
  simp [token?, hg, isTriple, h, hflow]

theorem token?_entry (h : charAt s.glyphs 1 = ' ') (hg : g.char = '-') :
    s.token? g = blockEntry? s g := by
  simp [token?, hg, isTriple, h, isGap, isBlank]

theorem token?_key (h : charAt s.glyphs 1 = ' ') (hg : g.char = '?') (hflow : s.inFlow = false) :
    s.token? g = s.key? g := by
  simp [token?, hg, isTriple, h, hflow, isGap, isBlank]

theorem token?_value (h : charAt s.glyphs 0 = ':') (hgap : isGap (charAt s.glyphs 1) = true)
    (hg : g.char = ':') (hflow : s.inFlow = false) : s.token? g = s.value? g := by
  simp [token?, hg, isTriple, h, hgap, hflow]

/-! ### Gaps and ends -/

theorem length_before_le {text text' : List Char} {ts' : List Token} {allowed' : Bool}
    (h : Printable text) (h' : Printable text') (hlen : text'.length ≤ text.length) :
    (before q text' ts' columns' allowed').glyphs.length ≤
      (before p text ts columns allowed).glyphs.length := by
  simp only [before, length_placed h, length_placed h']
  omega

theorem reads_space (hbegin : Begins rest) (h : Reads allowed (column + 1) rest ts columns result) :
    Reads allowed column (' ' :: rest) ts columns result := by
  have hprint : Printable (' ' :: rest) := printable_cons.2 ⟨by decide, h.printable⟩
  refine ⟨hprint, fun p hp => ?_⟩
  have hnext : (p.next ' ').column = column + 1 := by rw [Spot.next_char (by decide), hp]
  refine (h.yields _ hnext).of_step_eq ?_ (length_before_le hprint h.printable (Nat.le_succ _))
  exact step?_before_eq (skipGap_space.trans (skipGap_begins h.printable hbegin)) h.printable hbegin

theorem reads_line (hbegin : Begins rest) (h : Reads true k rest ts columns result) :
    Reads allowed column ('\n' :: indentation k ++ rest) ts columns result := by
  have hprint : Printable ('\n' :: indentation k ++ rest) :=
    printable_append.2 ⟨printable_cons.2 ⟨by decide, printable_indentation k⟩, h.printable⟩
  refine ⟨hprint, fun p _ => ?_⟩
  have hcolumn : (p.past ('\n' :: indentation k)).column = k :=
    Spot.column_newLine (c := '\n') (by decide) k
  refine (h.yields _ hcolumn).of_step_eq ?_ (length_before_le hprint h.printable (by simp; omega))
  exact step?_before_eq (skipGap_line h.printable hbegin k) h.printable hbegin

theorem reads_close (hbegin : Begins rest) (hleft : rest = [] ∨ j < k)
    (h : Reads allowed j rest (ts ++ [.blockEnd]) columns result) :
    Reads allowed j rest ts (k :: columns) result := by
  refine ⟨h.printable, fun p hp => ?_⟩
  exact (h.yields p hp).of_step_eq (step?_close h.printable hbegin (hp ▸ hleft)) le_rfl

theorem reads_end : Reads allowed column [] ts [] ts :=
  ⟨printable_nil, fun _ _ => yields_before_nil⟩

/-! ### Block collections -/

/-- Opening a collection at a column: its start, unless one is open there, and the columns of the
collections that are open then. -/
inductive Opens (start : Token) (column : Nat) : List Nat → List Token → List Nat → Prop
  | already {outer : List Nat} : Opens start column (column :: outer) [] (column :: outer)
  | new {outer : List Nat} (deeper : ∀ k ∈ outer.head?, k < column) :
      Opens start column outer [start] (column :: outer)

variable {start : Token}

theorem head_le_of_opens (h : Opens start column columns opening columns') :
    ∀ k ∈ columns.head?, k ≤ column := by
  cases h with
  | already => rintro _ ⟨⟩; exact le_rfl
  | new deeper => exact fun k hk => (deeper k hk).le

theorem exists_of_opens (h : Opens start column columns opening columns') :
    ∃ outer, columns' = column :: outer := by
  cases h with
  | already => exact ⟨_, rfl⟩
  | new deeper => exact ⟨_, rfl⟩

theorem insertIdx_length (ts us : List Token) (t : Token) :
    (ts ++ us).insertIdx ts.length t = ts ++ t :: us := by
  induction ts with
  | nil => simp
  | cons a ts ih => simp [ih]

theorem roll_of_opens (h : Opens start column columns opening columns') {s : Scan}
    {us : List Token} (hflow : s.inFlow = false) (hcolumns : s.columns = columns)
    (htokens : s.tokens = (ts ++ us).toArray) :
    s.roll column start ts.length =
      { s with tokens := (ts ++ (opening ++ us)).toArray, columns := columns' } := by
  obtain ⟨glyphs, tokens, columns'', keys, keyAllowed⟩ := s
  simp only at hcolumns htokens
  subst hcolumns htokens
  cases h with
  | already => simp [roll, indent]
  | new deeper =>
    have hdeeper : ¬ (column : Int) ≤
        indent ⟨glyphs, (ts ++ us).toArray, columns'', keys, keyAllowed⟩ := by
      cases columns'' with
      | nil => simp only [indent]; omega
      | cons k outer =>
        have := deeper k rfl
        simp only [indent]
        omega
    rw [roll, hflow, decide_eq_false hdeeper, Bool.or_self, if_neg Bool.false_ne_true]
    simp only [List.insertIdxIfInBounds_toArray, insertIdx_length, List.singleton_append]

/-- A mark of one character. -/
theorem reads_mark {allowed' : Bool} {ts' : List Token} (hc : isPrintable c = true)
    (hbegin : Begins (c :: rest)) (hhead : ∀ k ∈ columns.head?, k ≤ column)
    (htoken : ∀ p : Spot, p.column = column →
      (before p (c :: rest) ts columns allowed).token? ⟨c, p.index, p.line, p.column⟩ =
        some (before (p.next c) rest ts' columns' allowed'))
    (h : Reads allowed' (column + 1) rest ts' columns' result) :
    Reads allowed column (c :: rest) ts columns result := by
  have hprint : Printable (c :: rest) := printable_cons.2 ⟨hc, h.printable⟩
  refine ⟨hprint, fun p hp => ?_⟩
  have hnext : (p.next c).column = column + 1 := by
    rw [Spot.next_char (hbegin c rfl).2.1, hp]
  have hstep : (before p (c :: rest) ts columns allowed).step? = _ :=
    step?_before hprint hbegin (hp ▸ hhead)
  rw [htoken p hp] at hstep
  refine (h.yields _ hnext).of_step hstep ?_
  simp only [before, length_placed h.printable, length_placed hprint, List.length_cons]
  omega

theorem charAt_before (hc : isPrintable c = true) :
    charAt (before p (c :: rest) ts columns allowed).glyphs 0 = c := by
  rw [before, placed_cons hc]
  rfl

theorem gap_before (hc : isPrintable c = true) (hrest : Printable (' ' :: rest)) :
    charAt (before p (c :: ' ' :: rest) ts columns allowed).glyphs 1 = ' ' := by
  rw [before, placed_cons hc, charAt_cons, charAt_placed hrest]
  rfl

theorem tail_placed (hc : isPrintable c = true) :
    (placed p (c :: rest)).tail = placed (p.next c) rest := by
  rw [placed_cons hc]
  rfl

theorem roll_before (h : Opens start p.column columns opening columns') :
    (before p cs ts columns allowed).roll p.column start
        (before p cs ts columns allowed).tokens.size =
      before p cs (ts ++ opening) columns' allowed := by
  have htokens : (before p cs ts columns allowed).tokens = (ts ++ []).toArray := by
    rw [List.append_nil, before]
  have hroll := roll_of_opens h rfl rfl htokens
  rw [List.append_nil] at hroll
  exact hroll

/-- The hyphen before an item. -/
theorem reads_entry (hopen : Opens .blockSequenceStart k columns opening columns')
    (h : Reads true (k + 1) (' ' :: rest) (ts ++ opening ++ [.blockEntry]) columns' result) :
    Reads true k ('-' :: ' ' :: rest) ts columns result := by
  refine reads_mark (by decide) (by rintro _ ⟨⟩; decide) (head_le_of_opens hopen) ?_ h
  rintro p rfl
  have hforget : ∀ ts columns, (before p ('-' :: ' ' :: rest) ts columns true).forgetKey? =
      some (before p ('-' :: ' ' :: rest) ts columns true) := fun _ _ => rfl
  rw [token?_entry (gap_before (by decide) h.printable) rfl, blockEntry?]
  simp only [roll_before hopen, hforget]
  simp [before, push, drop, inFlow, tail_placed (c := '-') (by decide)]

/-- The question mark before a key. -/
theorem reads_markedKey (hopen : Opens .blockMappingStart k columns opening columns')
    (h : Reads true (k + 1) (' ' :: rest) (ts ++ opening ++ [.key]) columns' result) :
    Reads true k ('?' :: ' ' :: rest) ts columns result := by
  refine reads_mark (by decide) (by rintro _ ⟨⟩; decide) (head_le_of_opens hopen) ?_ h
  rintro p rfl
  have hforget : ∀ ts columns, (before p ('?' :: ' ' :: rest) ts columns true).forgetKey? =
      some (before p ('?' :: ' ' :: rest) ts columns true) := fun _ _ => rfl
  rw [token?_key (gap_before (by decide) h.printable) rfl rfl, key?]
  simp only [roll_before hopen, hforget]
  simp [before, push, drop, inFlow, tail_placed (c := '?') (by decide)]

/-- The colon on a line of its own, after a key that was marked. -/
theorem reads_markedValue
    (h : Reads true (k + 1) (' ' :: rest) (ts ++ [.value]) (k :: outer) result) :
    Reads true k (':' :: ' ' :: rest) ts (k :: outer) result := by
  refine reads_mark (by decide) (by rintro _ ⟨⟩; decide) (by rintro _ ⟨⟩; exact le_rfl) ?_ h
  rintro p rfl
  have hgap : isGap (charAt (before p (':' :: ' ' :: rest) ts (p.column :: outer) true).glyphs 1) =
      true := by
    rw [gap_before (by decide) h.printable]
    rfl
  have hroll : (before p (':' :: ' ' :: rest) ts (p.column :: outer) true).roll p.column
      .blockMappingStart (before p (':' :: ' ' :: rest) ts (p.column :: outer) true).tokens.size =
        before p (':' :: ' ' :: rest) (ts ++ []) (p.column :: outer) true := roll_before .already
  rw [token?_value (charAt_before (by decide)) hgap rfl rfl, value?]
  simp only [before] at hroll ⊢
  simp only [hroll]
  simp [push, drop, inFlow, tail_placed (c := ':') (by decide)]

/-! ### Empty flow collections -/

/-- The column of the innermost collection that is open. -/
def depth : List Nat → Int
  | [] => -1
  | k :: _ => k

theorem indent_eq_depth (s : Scan) : s.indent = depth s.columns := by
  rw [indent]
  cases s.columns <;> rfl

/-- The key that may begin at a place, if one is allowed there. -/
def noted (p : Spot) (ts : List Token) (columns : List Nat) (allowed : Bool) : Option KeyStart :=
  if allowed then
    some ⟨depth columns == (p.column : Int), ts.length, p.index, p.line, p.column⟩
  else none

theorem noteKey?_before : (before p cs ts columns allowed).noteKey? ⟨c, p.index, p.line, p.column⟩ =
    some { before p cs ts columns allowed with keys := [noted p ts columns allowed] } := by
  cases allowed with
  | false => rfl
  | true =>
    have hindent : (before p cs ts columns true).indent = depth columns := indent_eq_depth _
    rw [noted, ← hindent]
    rfl

theorem line_of_noted {key : KeyStart} (h : key ∈ noted p ts columns allowed) :
    key.line = p.line ∧ key.index = p.index := by
  cases allowed with
  | false => cases h
  | true =>
    cases h
    exact ⟨rfl, rfl⟩

/-- A node that begins deeper than the innermost collection may be a key, but need not. -/
theorem required_of_noted {key : KeyStart} (hhead : ∀ k ∈ columns.head?, k < p.column)
    (h : key ∈ noted p ts columns allowed) : key.required = false := by
  cases allowed with
  | false => cases h
  | true =>
    cases h
    cases columns with
    | nil =>
      simp only [depth, beq_eq_false_iff_ne, ne_eq]
      omega
    | cons k outer =>
      have := hhead k rfl
      simp only [depth, beq_eq_false_iff_ne, ne_eq]
      omega

/-- After a text or an empty collection the scanner goes on with the next line. -/
theorem yields_line {key : Option KeyStart} (hkeys : s.keys = [key])
    (htokens : s.tokens = ts.toArray) (hcolumns : s.columns = columns)
    (hglyphs : s.glyphs = placed q ('\n' :: indentation j ++ rest))
    (hkey : ∀ k ∈ key, k.required = false ∧ k.line ≤ q.line) (hbegin : Begins rest)
    (h : Reads true j rest ts columns result) : s.Yields result := by
  have hcolumn : (q.past ('\n' :: indentation j)).column = j :=
    Spot.column_newLine (c := '\n') (by decide) j
  have hline : (q.past ('\n' :: indentation j)).line = q.line + 1 := by
    rw [Spot.past_cons, Spot.past_indentation, Spot.next_break (by decide)]
  have hprint : Printable ('\n' :: indentation j ++ rest) :=
    printable_append.2 ⟨printable_cons.2 ⟨by decide, printable_indentation j⟩, h.printable⟩
  have hskip : skipGap false false s.keyAllowed s.glyphs =
      (true, placed (q.past ('\n' :: indentation j)) rest) := by
    rw [hglyphs]
    exact skipGap_line h.printable hbegin j
  have hidle : Idle key (q.past ('\n' :: indentation j)).line := by
    intro k hk
    obtain ⟨hrequired, hsame⟩ := hkey k hk
    exact ⟨hrequired, by omega⟩
  refine (h.yields _ hcolumn).of_step_eq
    (step?_eq hkeys htokens hcolumns hskip h.printable hbegin hidle) ?_
  rw [hglyphs, before, length_placed h.printable, length_placed hprint]
  simp
  omega

/-- An empty collection between its two marks. -/
theorem reads_emptyFlow {a b : Char} {t u : Token} (ha : isPrintable a = true)
    (hb : isPrintable b = true) (hbegin : Begins [a]) (hbegin' : Begins [b])
    (hstart : ∀ (s : Scan) g, charAt s.glyphs 0 = a → g.char = a → s.token? g = s.flowStart? g t)
    (hend : ∀ (s : Scan) g, charAt s.glyphs 0 = b → g.char = b → s.token? g = s.flowEnd? u)
    (hhead : ∀ k ∈ columns.head?, k < column) (hrest : Begins rest)
    (h : Reads true j rest (ts ++ [t, u]) columns result) :
    Reads allowed column (a :: b :: '\n' :: (indentation j ++ rest)) ts columns result := by
  have hprint' : Printable (b :: '\n' :: (indentation j ++ rest)) :=
    printable_cons.2 ⟨hb, printable_cons.2 ⟨by decide,
      printable_append.2 ⟨printable_indentation j, h.printable⟩⟩⟩
  have hprint : Printable (a :: b :: '\n' :: (indentation j ++ rest)) :=
    printable_cons.2 ⟨ha, hprint'⟩
  refine ⟨hprint, fun p hp => ?_⟩
  subst hp
  have hline : ∀ k ∈ noted p ts columns allowed, k.line = p.line ∧ k.index = p.index :=
    fun k hk => line_of_noted hk
  have hrequired : ∀ k ∈ noted p ts columns allowed, k.required = false :=
    fun k hk => required_of_noted hhead hk
  have hopened : (before p (a :: b :: '\n' :: (indentation j ++ rest)) ts columns allowed).step? =
      some (⟨placed (p.next a) (b :: '\n' :: (indentation j ++ rest)), (ts ++ [t]).toArray, columns,
        [none, noted p ts columns allowed], true⟩, false) := by
    rw [step?_before hprint (fun c hc => hbegin c hc) (fun k hk => (hhead k hk).le),
      hstart _ _ (charAt_before ha) rfl, flowStart?, noteKey?_before]
    simp [before, push, drop, tail_placed ha]
  -- the collection may itself be a key: what is noted is kept until its second mark is read
  generalize noted p ts columns allowed = key at hline hrequired hopened
  have hnext := Spot.next_char (p := p) (hbegin a rfl).2.1
  have hnext' := Spot.next_char (p := p.next a) (hbegin' b rfl).2.1
  have hfresh : forgetStale? ⟨placed (p.next a) (b :: '\n' :: (indentation j ++ rest)),
      (ts ++ [t]).toArray, columns, [none, key], true⟩
        ⟨b, (p.next a).index, (p.next a).line, (p.next a).column⟩ =
      some ⟨placed (p.next a) (b :: '\n' :: (indentation j ++ rest)), (ts ++ [t]).toArray, columns,
        [none, key], true⟩ := by
    cases key with
    | none => rfl
    | some k =>
      obtain ⟨hline, hindex⟩ := hline k rfl
      have := a.utf8Size_le_four
      have hstale :
          k.isStale ⟨b, (p.next a).index, (p.next a).line, (p.next a).column⟩ = false := by
        simp only [KeyStart.isStale, hnext, Bool.or_eq_false_iff, decide_eq_false_iff_not]
        omega
      simp [forgetStale?, hstale]
  have hclosed : step? ⟨placed (p.next a) (b :: '\n' :: (indentation j ++ rest)),
      (ts ++ [t]).toArray, columns, [none, key], true⟩ =
      some (⟨placed ((p.next a).next b) ('\n' :: (indentation j ++ rest)), (ts ++ [t, u]).toArray,
        columns, [key], false⟩, false) := by
    rw [step?_of_settled (placed_cons hb) (skipGap_begins hprint' fun c hc => hbegin' c hc)
      (isEnd_of_isPrintable hb) hfresh rfl, hend _ _ (by rw [placed_cons hb]; rfl) rfl]
    simp [flowEnd?, forgetKey?, inFlow, push, drop, tail_placed hb]
  have hdone : Yields ⟨placed ((p.next a).next b) ('\n' :: (indentation j ++ rest)),
      (ts ++ [t, u]).toArray, columns, [key], false⟩ result := by
    refine yields_line (q := (p.next a).next b) rfl rfl rfl rfl (fun k hk => ?_) hrest h
    rw [hnext', hnext]
    exact ⟨hrequired k hk, (hline k hk).1.le⟩
  have hprint'' := (printable_cons.1 hprint').2
  refine (hdone.of_step hclosed ?_).of_step hopened ?_
  · simp only [length_placed hprint', length_placed hprint'', List.length_cons]
    omega
  · simp only [before, length_placed hprint', length_placed hprint, List.length_cons]
    omega

end Federation.Yaml.Scan
