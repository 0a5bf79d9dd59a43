import Federation.Proofs.Yaml.Texts

/-!
# Outlines read back

The tokens of an outline show its tree: a collection stands between its start and its end, except
that a sequence at the column of the mapping around it has neither. The text of an outline is read
as these tokens, by induction on the outline.
-/

namespace Federation.Yaml

/-- Induction on an outline: what holds of the parts of a collection holds of the collection. -/
theorem Outline.induct {P : Outline → Prop} (text : ∀ s, P (.text s))
    (list : ∀ items, (∀ o ∈ items, P o) → P (.list items))
    (record : ∀ entries, (∀ e ∈ entries, P e.2) → P (.record entries)) (o : Outline) : P o := by
  match o with
  | .text s => exact text s
  | .list items => exact list items fun o ho => induct text list record o
  | .record entries => exact record entries fun e he => induct text list record e.2
termination_by sizeOf o
decreasing_by
  · have := List.sizeOf_lt_of_mem ho
    simp only [Outline.list.sizeOf_spec]
    omega
  · have := List.sizeOf_lt_of_mem he
    have hpair : sizeOf e = 1 + sizeOf e.1 + sizeOf e.2 := rfl
    simp only [Outline.record.sizeOf_spec]
    omega

/-! ### The tokens of an outline -/

mutual

/-- The tokens of an outline, which is no item of its own if it is the value of a simple key. -/
def valueTokens (simple : Bool) : Outline → List Token
  | .text s => [textToken s]
  | .list [] => [.flowSequenceStart, .flowSequenceEnd]
  | .record [] => [.flowMappingStart, .flowMappingEnd]
  | .list items =>
    if simple then itemsTokens items else .blockSequenceStart :: itemsTokens items ++ [.blockEnd]
  | .record entries => .blockMappingStart :: entriesTokens entries ++ [.blockEnd]

/-- The tokens of the entries of a mapping. -/
def entriesTokens : List (String × Outline) → List Token
  | [] => []
  | (k, o) :: rest =>
    [.key, textToken k, .value] ++ valueTokens (isSimpleKey k) o ++ entriesTokens rest

/-- The tokens of the items of a sequence. -/
def itemsTokens : List Outline → List Token
  | [] => []
  | o :: rest => .blockEntry :: valueTokens false o ++ itemsTokens rest

end

namespace Scan

variable {s : String} {text text' rest tail : List Char} {tokens tokens' opening : List Token}
  {columns columns' outer : List Nat} {allowed : Bool} {column limit k : Nat} {o : Outline}

/-- A text that ends its line is taken as tokens, if the next line begins no deeper than a limit. -/
def Takes (allowed : Bool) (column limit : Nat) (text : List Char) (columns : List Nat)
    (tokens : List Token) (columns' : List Nat) : Prop :=
  ∀ (j : Nat) (rest : List Char) (ts result : List Token), j ≤ limit → Begins rest →
    Reads true j rest (ts ++ tokens) columns' result →
    Reads allowed column (text ++ (indentation j ++ rest)) ts columns result

/-! ### Pieces of a text -/

theorem takes_text (hk : k < column) :
    Takes allowed column k (textLine (k + 2) s) (k :: outer) [textToken s] (k :: outer) :=
  fun _ _ _ _ hj hbegin h => reads_text hk hj hbegin h

theorem takes_emptyList (hk : k < column) :
    Takes allowed column limit "[]\n".toList (k :: outer) [.flowSequenceStart, .flowSequenceEnd]
      (k :: outer) := by
  intro j rest ts result hj hbegin h
  have hwritten : "[]\n".toList = ['[', ']', '\n'] := rfl
  rw [hwritten]
  refine reads_emptyFlow (by decide) (by decide) (by rintro _ ⟨⟩; decide) (by rintro _ ⟨⟩; decide)
    ?_ ?_ (by rintro _ ⟨⟩; exact hk) hbegin h
  · intro s g hs hg
    simp [token?, hg, isTriple, hs]
  · intro s g hs hg
    simp [token?, hg, isTriple, hs]

theorem takes_emptyRecord (hk : k < column) :
    Takes allowed column limit "\x7b\x7d\n".toList (k :: outer) [.flowMappingStart, .flowMappingEnd]
      (k :: outer) := by
  intro j rest ts result hj hbegin h
  have hwritten : "\x7b\x7d\n".toList = ['{', '}', '\n'] := rfl
  rw [hwritten]
  refine reads_emptyFlow (by decide) (by decide) (by rintro _ ⟨⟩; decide) (by rintro _ ⟨⟩; decide)
    ?_ ?_ (by rintro _ ⟨⟩; exact hk) hbegin h
  · intro s g hs hg
    simp [token?, hg, isTriple, hs]
  · intro s g hs hg
    simp [token?, hg, isTriple, hs]

theorem takes_space (hbegin : ∀ tail, Begins (text ++ tail))
    (h : Takes allowed (column + 1) limit text columns tokens columns') :
    Takes allowed column limit (' ' :: text) columns tokens columns' :=
  fun j rest ts result hj hrest hreads =>
    reads_space (hbegin _) (h j rest ts result hj hrest hreads)

theorem takes_line (hbegin : ∀ tail, Begins (text ++ tail))
    (h : Takes true k limit text columns tokens columns') :
    Takes allowed column limit ('\n' :: indentation k ++ text) columns tokens columns' := by
  intro j rest ts result hj hrest hreads
  rw [List.append_assoc]
  exact reads_line (hbegin _) (h j rest ts result hj hrest hreads)

/-- Two pieces, of which the second begins on a line of its own. -/
theorem takes_append (h : Takes allowed column k text columns tokens columns')
    {columns'' : List Nat} (hbegin : ∀ tail, Begins (text' ++ tail))
    (h' : Takes true k limit text' columns' tokens' columns'') :
    Takes allowed column limit (text ++ (indentation k ++ text')) columns (tokens ++ tokens')
      columns'' := by
  intro j rest ts result hj hrest hreads
  simp only [List.append_assoc]
  refine h k _ ts result le_rfl (hbegin _) (h' j rest _ result hj hrest ?_)
  rwa [List.append_assoc]

/-- A collection is closed where the next line begins less deep. -/
theorem takes_close (hk : k < column)
    (h : Takes allowed column column text columns tokens (column :: columns)) :
    Takes allowed column k text columns (tokens ++ [.blockEnd]) columns := by
  intro j rest ts result hj hrest hreads
  refine h j rest ts result (hj.trans hk.le) hrest (reads_close hrest (.inr (hj.trans_lt hk)) ?_)
  rwa [List.append_assoc]

/-! ### What pieces begin with -/

theorem begins_textLine (column : Nat) (s : String) (tail : List Char) :
    Begins (textLine column s ++ tail) := by
  by_cases h : styleOf s = .block
  · rw [textLine, h]
    rintro _ ⟨⟩
    decide
  · rw [textLine_eq h, List.append_assoc]
    exact begins_inlineText column h _

theorem keyText_of_simple (hsimple : isSimpleKey s = true) :
    keyText k s = inlineText (k + 2) s ++ [':'] := by
  have hs : styleOf s ≠ .block := ne_block_of_simple hsimple
  rw [keyText, if_pos hsimple, textLine_eq hs, List.dropLast_concat]

theorem begins_entries (column : Nat) (e : String × Outline) (entries : List (String × Outline))
    (tail : List Char) : Begins (entriesText column (e :: entries) ++ tail) := by
  obtain ⟨key, o⟩ := e
  have hkey : ∀ tail, Begins (keyText column key ++ tail) := by
    intro tail
    by_cases hsimple : isSimpleKey key = true
    · rw [keyText_of_simple hsimple, List.append_assoc]
      exact begins_inlineText _ (ne_block_of_simple hsimple) _
    · rw [keyText, if_neg hsimple]
      rintro _ ⟨⟩
      decide
  cases entries with
  | nil =>
    rw [entriesText, List.append_assoc]
    exact hkey _
  | cons e entries =>
    rw [entriesText]
    · simp only [List.append_assoc]
      exact hkey _
    · exact List.cons_ne_nil _ _

theorem begins_items (column : Nat) (o : Outline) (items : List Outline) (tail : List Char) :
    Begins (itemsText column (o :: items) ++ tail) := by
  cases items with
  | nil =>
    rw [itemsText]
    rintro _ ⟨⟩
    decide
  | cons o items =>
    rw [itemsText]
    · rintro _ ⟨⟩
      decide
    · exact List.cons_ne_nil _ _

theorem begins_item (column : Nat) (o : Outline) (tail : List Char) :
    Begins (itemText column o ++ tail) := by
  match o with
  | .text s => exact begins_textLine column s tail
  | .list [] => rintro _ ⟨⟩; decide
  | .record [] => rintro _ ⟨⟩; decide
  | .list (o :: items) => exact begins_items column o items tail
  | .record (e :: entries) => exact begins_entries column e entries tail

/-! ### Collections -/

/-- After a key that was marked, a value is written as an item. -/
theorem valueText_marked (column : Nat) (o : Outline) :
    valueText column false o = ' ' :: itemText (column + 2) o := by
  match o with
  | .text s => rfl
  | .list [] => rfl
  | .record [] => rfl
  | .list (o :: items) => rfl
  | .record (e :: entries) => rfl

theorem separated_value (column : Nat) (simple : Bool) (o : Outline) (tail : List Char) :
    separated (valueText column simple o ++ tail) = true := by
  cases simple with
  | false =>
    rw [valueText_marked]
    rfl
  | true => match o with
    | .text s => rfl
    | .list [] => rfl
    | .record [] => rfl
    | .list (o :: items) => rfl
    | .record (e :: entries) => rfl

theorem entriesText_cons (column : Nat) (key : String) (o : Outline) (e : String × Outline)
    (entries : List (String × Outline)) :
    entriesText column ((key, o) :: e :: entries) =
      keyText column key ++ valueText column (isSimpleKey key) o ++
        (indentation column ++ entriesText column (e :: entries)) := by
  rw [entriesText, List.append_assoc]
  exact List.cons_ne_nil _ _

theorem itemsText_cons (column : Nat) (o o' : Outline) (items : List Outline) :
    itemsText column (o :: o' :: items) =
      '-' :: ' ' :: itemText (column + 2) o ++
        (indentation column ++ itemsText column (o' :: items)) := by
  rw [itemsText]
  · simp
  · exact List.cons_ne_nil _ _

/-- An outline is read as its tokens where it stands alone and where it is the value of a simple
key. -/
structure Taken (o : Outline) : Prop where
  item : ∀ k outer, Takes true (k + 2) k (itemText (k + 2) o) (k :: outer) (valueTokens false o)
    (k :: outer)
  value : ∀ k outer column, k < column → Takes false column k (valueText k true o) (k :: outer)
    (valueTokens true o) (k :: outer)

/-- An entry of a mapping: its key is marked or simple. -/
theorem takes_entry (hopen : Opens .blockMappingStart k columns opening columns') (s : String)
    (h : Taken o) :
    Takes true k k (keyText k s ++ valueText k (isSimpleKey s) o) columns
      (opening ++ ([.key, textToken s, .value] ++ valueTokens (isSimpleKey s) o)) columns' := by
  intro j rest ts result hj hrest hreads
  obtain ⟨outer, rfl⟩ := exists_of_opens hopen
  cases hsimple : isSimpleKey s with
  | true =>
    rw [keyText_of_simple hsimple]
    simp only [List.append_assoc, List.singleton_append]
    refine reads_simpleKey hsimple hopen (separated_value k true o _) fun column hcolumn => ?_
    refine h.value k outer column hcolumn j rest _ result hj hrest ?_
    simpa only [List.append_assoc, hsimple] using hreads
  | false =>
    rw [keyText, hsimple, if_neg Bool.false_ne_true, valueText_marked]
    simp only [List.cons_append, List.append_assoc, List.nil_append]
    have hitem := h.item k outer j rest (ts ++ opening ++ [.key] ++ [textToken s] ++ [.value])
      result hj hrest (by simpa [hsimple] using hreads)
    have hvalue := reads_markedValue (reads_space (begins_item (k + 2) o _) hitem)
    have hdeeper : k < k + 2 := by omega
    refine reads_markedKey hopen (reads_space (begins_textLine _ _ _) ?_)
    exact reads_text hdeeper le_rfl (by rintro _ ⟨⟩; decide) hvalue

theorem takes_listItem (hopen : Opens .blockSequenceStart k columns opening columns')
    (h : Taken o) :
    Takes true k k ('-' :: ' ' :: itemText (k + 2) o) columns
      (opening ++ .blockEntry :: valueTokens false o) columns' := by
  intro j rest ts result hj hrest hreads
  obtain ⟨outer, rfl⟩ := exists_of_opens hopen
  have hitem := h.item k outer j rest (ts ++ opening ++ [.blockEntry]) result hj hrest
    (by simpa using hreads)
  exact reads_entry hopen (reads_space (begins_item _ _ _) hitem)

theorem takes_entries (hopen : Opens .blockMappingStart k columns opening columns')
    (e : String × Outline) (entries : List (String × Outline))
    (h : ∀ e' ∈ e :: entries, Taken e'.2) :
    Takes true k k (entriesText k (e :: entries)) columns (opening ++ entriesTokens (e :: entries))
      columns' := by
  induction entries generalizing e columns opening with
  | nil =>
    rw [entriesText, entriesTokens, entriesTokens, List.append_nil]
    exact takes_entry hopen e.1 (h e List.mem_cons_self)
  | cons e' entries ih =>
    obtain ⟨outer, rfl⟩ := exists_of_opens hopen
    rw [entriesText_cons, entriesTokens, ← List.append_assoc opening]
    exact takes_append (takes_entry hopen e.1 (h e List.mem_cons_self))
      (begins_entries k e' entries) (ih .already e' fun d hd => h d (List.mem_cons_of_mem _ hd))

theorem takes_items (hopen : Opens .blockSequenceStart k columns opening columns') (o : Outline)
    (items : List Outline) (h : ∀ o' ∈ o :: items, Taken o') :
    Takes true k k (itemsText k (o :: items)) columns (opening ++ itemsTokens (o :: items))
      columns' := by
  induction items generalizing o columns opening with
  | nil =>
    rw [itemsText, itemsTokens, itemsTokens, List.append_nil]
    exact takes_listItem hopen (h o List.mem_cons_self)
  | cons o' items ih =>
    obtain ⟨outer, rfl⟩ := exists_of_opens hopen
    rw [itemsText_cons, itemsTokens, ← List.append_assoc opening]
    exact takes_append (takes_listItem hopen (h o List.mem_cons_self)) (begins_items k o' items)
      (ih .already o' fun d hd => h d (List.mem_cons_of_mem _ hd))

theorem opens_deeper {start : Token} :
    Opens start (k + 2) (k :: outer) [start] ((k + 2) :: k :: outer) :=
  .new (by rintro _ ⟨⟩; omega)

/-- Outlines of any depth are read as their tokens. -/
theorem taken (o : Outline) : Taken o := by
  have hdeeper (k : Nat) : k < k + 2 := by omega
  induction o using Outline.induct with
  | text s =>
    exact ⟨fun k _ => takes_text (hdeeper k), fun k _ column hk =>
      takes_space (begins_textLine _ _) (takes_text (Nat.lt_succ_of_lt hk))⟩
  | list items ih =>
    cases items with
    | nil =>
      exact ⟨fun k _ => takes_emptyList (hdeeper k), fun k _ column hk =>
        takes_space (by rintro _ _ ⟨⟩; decide) (takes_emptyList (Nat.lt_succ_of_lt hk))⟩
    | cons o items =>
      exact ⟨fun k _ => takes_close (hdeeper k) (takes_items opens_deeper o items ih),
        -- items need no column of their own below the mapping that is open
        fun k _ column _ => takes_line (begins_items _ _ _) (takes_items .already o items ih)⟩
  | record entries ih =>
    cases entries with
    | nil =>
      exact ⟨fun k _ => takes_emptyRecord (hdeeper k), fun k _ column hk =>
        takes_space (by rintro _ _ ⟨⟩; decide) (takes_emptyRecord (Nat.lt_succ_of_lt hk))⟩
    | cons e entries =>
      exact ⟨fun k _ => takes_close (hdeeper k) (takes_entries opens_deeper e entries ih),
        fun k _ column _ => takes_line (begins_entries _ _ _)
          (takes_close (hdeeper k) (takes_entries opens_deeper e entries ih))⟩

end Scan

/-- The text of a mapping is read as its tokens. -/
theorem tokens?_write (e : String × Outline) (entries : List (String × Outline)) :
    tokens? (Outline.record (e :: entries)).write =
      some (valueTokens false (.record (e :: entries))) := by
  have hend : Scan.Reads true 0 [] ([.blockMappingStart] ++ entriesTokens (e :: entries)) [0]
      (valueTokens false (.record (e :: entries))) :=
    Scan.reads_close (by rintro _ ⟨⟩) (.inl rfl) Scan.reads_end
  have hreads := Scan.takes_entries (.new (by rintro _ ⟨⟩)) e entries (fun _ _ => Scan.taken _)
    0 [] [] _ le_rfl (by rintro _ ⟨⟩) hend
  have hwritten : itemText 0 (.record (e :: entries)) =
      entriesText 0 (e :: entries) ++ (indentation 0 ++ []) := by
    rw [List.append_nil]
    exact (List.append_nil _).symm
  rw [← hwritten] at hreads
  rw [Outline.write, tokens?, glyphs?_ofList hreads.printable]
  exact hreads.yields ⟨0, 0, 0⟩ rfl _ (Nat.lt_succ_self _)

end Federation.Yaml
