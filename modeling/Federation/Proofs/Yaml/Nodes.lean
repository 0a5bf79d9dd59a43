import Federation.Proofs.Yaml.Outlines
import Federation.Yaml.Node

/-!
# Nodes read back

The tokens of an outline are read as the node with the same tree, in which each text is a scalar
without a tag. The number of tokens bounds how deep the reader goes.
-/

namespace Federation.Yaml

/-! ### The node of an outline -/

/-- The node of a text. -/
def textNode (s : String) : Node :=
  .scalar none (styleOf s = .plain) s

mutual

/-- The node of an outline. -/
def Outline.node : Outline → Node
  | .text s => textNode s
  | .list items => .sequence (itemNodes items)
  | .record entries => .mapping (entryNodes entries)

/-- The nodes of the items of a sequence. -/
def itemNodes : List Outline → List Node
  | [] => []
  | o :: rest => o.node :: itemNodes rest

/-- The nodes of the entries of a mapping. -/
def entryNodes : List (String × Outline) → List (Node × Node)
  | [] => []
  | (k, o) :: rest => (textNode k, o.node) :: entryNodes rest

end

namespace Node

variable {α : Type} {t : Token} {ts ts' rest stops : List Token} {fuel : Nat} {s : Reading}
  {block indentless : Bool} {node key value : Node} {o : Outline}

/-- A reader takes tokens, makes a value of them and changes nothing else. -/
def Makes (read : Reader α) (ts rest : List Token) (x : α) : Prop :=
  ∀ s : Reading, read { s with tokens := ts ++ rest } = some (x, { s with tokens := rest })

theorem run_bind {β : Type} {read : Reader α} {next : α → Reader β} {s s' : Reading} {x : α}
    (h : read s = some (x, s')) : (read >>= next) s = next x s' := by
  change (read s).bind _ = _
  rw [h]
  rfl

theorem exists_succ (hfuel : 0 < fuel) : ∃ n, fuel = n + 1 :=
  ⟨fuel - 1, by omega⟩

theorem readNode_scalar (hfuel : 0 < fuel) (plain : Bool) (text : String) :
    Makes (readNode fuel block indentless) [.scalar plain text] rest (.scalar none plain text) := by
  obtain ⟨fuel, rfl⟩ := exists_succ hfuel
  intro s
  rw [readNode]
  rfl

theorem readNode_emptyList (hfuel : 1 < fuel) :
    Makes (readNode fuel block indentless) [.flowSequenceStart, .flowSequenceEnd] rest
      (.sequence []) := by
  obtain ⟨fuel, rfl⟩ : ∃ n, fuel = n + 2 := ⟨fuel - 2, by omega⟩
  intro s
  rw [readNode]
  rfl

theorem readNode_emptyRecord (hfuel : 1 < fuel) :
    Makes (readNode fuel block indentless) [.flowMappingStart, .flowMappingEnd] rest
      (.mapping []) := by
  obtain ⟨fuel, rfl⟩ : ∃ n, fuel = n + 2 := ⟨fuel - 2, by omega⟩
  intro s
  rw [readNode]
  rfl

theorem readNode_sequence {items : List Node} (h : Makes (readBlockItems fuel) ts rest items) :
    Makes (readNode (fuel + 1) true indentless) (.blockSequenceStart :: ts) rest
      (.sequence items) := by
  intro s
  rw [readNode]
  change (readBlockItems fuel { s with tokens := ts ++ rest }).bind _ = _
  rw [h s]
  rfl

theorem readNode_indentless {items : List Node}
    (h : Makes (readIndentlessItems fuel) (.blockEntry :: ts) rest items) :
    Makes (readNode (fuel + 1) block true) (.blockEntry :: ts) rest (.sequence items) := by
  intro s
  rw [readNode]
  change (readIndentlessItems fuel { s with tokens := .blockEntry :: ts ++ rest }).bind _ = _
  rw [h s]
  rfl

theorem readNode_mapping {entries : List (Node × Node)}
    (h : Makes (readBlockEntries fuel) ts rest entries) :
    Makes (readNode (fuel + 1) true indentless) (.blockMappingStart :: ts) rest
      (.mapping entries) := by
  intro s
  rw [readNode]
  change (readBlockEntries fuel { s with tokens := ts ++ rest }).bind _ = _
  rw [h s]
  rfl

theorem readUnless_node (hstop : t ∉ stops)
    (h : Makes (readNode fuel block indentless) (t :: ts) rest node) :
    Makes (readUnless (fuel + 1) stops block indentless) (t :: ts) rest node := by
  intro s
  have hat : atToken stops { s with tokens := t :: ts ++ rest } =
      some (false, { s with tokens := t :: ts ++ rest }) := by
    have hcontains : stops.contains t = false :=
      eq_false_of_ne_true fun h => hstop (List.contains_iff_mem.1 h)
    rw [← hcontains]
    rfl
  rw [readUnless, run_bind hat]
  exact h s

/-! ### Items and entries -/

theorem readBlockItems_end : Makes (readBlockItems (fuel + 1)) [.blockEnd] rest [] := by
  intro s
  rw [readBlockItems]
  rfl

theorem readBlockItems_entry {items : List Node}
    (hitem : Makes (readUnless fuel [.blockEntry, .blockEnd] true false) ts (ts' ++ rest) node)
    (hrest : Makes (readBlockItems fuel) ts' rest items) :
    Makes (readBlockItems (fuel + 1)) (.blockEntry :: ts ++ ts') rest (node :: items) := by
  intro s
  rw [List.append_assoc, readBlockItems]
  change ((readUnless fuel [.blockEntry, .blockEnd] true false)
    { s with tokens := ts ++ (ts' ++ rest) }).bind _ = _
  rw [hitem s]
  change ((readBlockItems fuel) { s with tokens := ts' ++ rest }).bind _ = _
  rw [hrest s]
  rfl

theorem readIndentlessItems_end (h : rest.head? ≠ some .blockEntry) :
    Makes (readIndentlessItems (fuel + 1)) [] rest [] := by
  intro s
  rw [readIndentlessItems]
  cases rest with
  | nil => rfl
  | cons t rest =>
    cases t with
    | blockEntry => exact absurd rfl h
    | _ => rfl

theorem readIndentlessItems_entry {items : List Node}
    (hitem : Makes (readUnless fuel (.blockEntry :: blockStops) true false) ts (ts' ++ rest) node)
    (hrest : Makes (readIndentlessItems fuel) ts' rest items) :
    Makes (readIndentlessItems (fuel + 1)) (.blockEntry :: ts ++ ts') rest (node :: items) := by
  intro s
  rw [List.append_assoc, readIndentlessItems]
  change ((readUnless fuel (.blockEntry :: blockStops) true false)
    { s with tokens := ts ++ (ts' ++ rest) }).bind _ = _
  rw [hitem s]
  change ((readIndentlessItems fuel) { s with tokens := ts' ++ rest }).bind _ = _
  rw [hrest s]
  rfl

theorem readBlockEntries_end : Makes (readBlockEntries (fuel + 1)) [.blockEnd] rest [] := by
  intro s
  rw [readBlockEntries]
  rfl

theorem readBlockEntries_entry {entries : List (Node × Node)} (k : String)
    (hvalue : Makes (readUnless (fuel + 1) blockStops true true) ts (ts' ++ rest) value)
    (hrest : Makes (readBlockEntries (fuel + 2)) ts' rest entries) :
    Makes (readBlockEntries (fuel + 3)) ([.key, textToken k, .value] ++ ts ++ ts') rest
      ((textNode k, value) :: entries) := by
  intro s
  have hkey : Makes (readUnless (fuel + 2) blockStops true true) [textToken k]
      (.value :: (ts ++ (ts' ++ rest))) (textNode k) :=
    readUnless_node (by simp [blockStops, textToken]) (readNode_scalar (Nat.succ_pos _) _ k)
  simp only [List.cons_append, List.nil_append, List.append_assoc]
  rw [readBlockEntries]
  change (readUnless (fuel + 2) blockStops true true >>= fun key => do
    let value ← readValue (fuel + 2) blockStops true
    return (key, value) :: (← readBlockEntries (fuel + 2)))
    { s with tokens := [textToken k] ++ .value :: (ts ++ (ts' ++ rest)) } = _
  rw [run_bind (hkey s)]
  change (readUnless (fuel + 1) blockStops true true >>= fun value => do
    return (textNode k, value) :: (← readBlockEntries (fuel + 2)))
    { s with tokens := ts ++ (ts' ++ rest) } = _
  rw [run_bind (hvalue s), run_bind (hrest s)]
  rfl

/-! ### Nodes -/

theorem exists_head_valueTokens (simple : Bool) (o : Outline) :
    ∃ t ts, valueTokens simple o = t :: ts ∧ t ∉ blockStops ∧
      (simple = false → t ∉ Token.blockEntry :: blockStops) := by
  match o with
  | .text s => exact ⟨_, _, rfl, by simp [blockStops, textToken], by simp [blockStops, textToken]⟩
  | .list [] => exact ⟨_, _, rfl, by decide, fun _ => by decide⟩
  | .record [] => exact ⟨_, _, rfl, by decide, fun _ => by decide⟩
  | .list (o :: items) =>
    cases simple with
    | true => exact ⟨_, _, rfl, by decide, Bool.noConfusion⟩
    | false => exact ⟨_, _, rfl, by decide, fun _ => by decide⟩
  | .record (e :: entries) => exact ⟨_, _, rfl, by decide, fun _ => by decide⟩

/-- An outline is made a node where it stands alone and where it is the value of a simple key, with
four calls for each of its tokens and two more. -/
structure Made (o : Outline) : Prop where
  item : ∀ fuel rest indentless, 4 * (valueTokens false o).length + 2 ≤ fuel →
    Makes (readNode fuel true indentless) (valueTokens false o) rest o.node
  value : ∀ fuel rest, 4 * (valueTokens true o).length + 2 ≤ fuel →
    rest.head? ≠ some .blockEntry → Makes (readNode fuel true true) (valueTokens true o) rest o.node

variable {items : List Outline} {entries : List (String × Outline)}

theorem readUnless_item (h : Made o) (hstops : ∀ t ∈ stops, t ∈ Token.blockEntry :: blockStops)
    (hfuel : 4 * (valueTokens false o).length + 3 ≤ fuel) :
    Makes (readUnless fuel stops true indentless) (valueTokens false o) rest o.node := by
  obtain ⟨fuel, rfl⟩ := exists_succ (Nat.zero_lt_of_lt hfuel)
  have hitem := h.item fuel rest indentless (by omega)
  obtain ⟨t, ts, hcons, -, hhead⟩ := exists_head_valueTokens false o
  rw [hcons] at hitem ⊢
  exact readUnless_node (fun ht => hhead rfl (hstops t ht)) hitem

theorem readUnless_value (h : Made o) (simple : Bool) (hrest : rest.head? ≠ some .blockEntry)
    (hfuel : 4 * (valueTokens simple o).length + 3 ≤ fuel) :
    Makes (readUnless fuel blockStops true true) (valueTokens simple o) rest o.node := by
  cases simple with
  | false => exact readUnless_item h (fun t ht => List.mem_cons_of_mem _ ht) hfuel
  | true =>
    obtain ⟨fuel, rfl⟩ := exists_succ (Nat.zero_lt_of_lt hfuel)
    have hvalue := h.value fuel rest (by omega) hrest
    obtain ⟨t, ts, hcons, hhead, -⟩ := exists_head_valueTokens true o
    rw [hcons] at hvalue ⊢
    exact readUnless_node hhead hvalue

theorem readBlockItems_items (h : ∀ o ∈ items, Made o)
    (hfuel : 4 * (itemsTokens items).length + 4 ≤ fuel) :
    Makes (readBlockItems fuel) (itemsTokens items ++ [.blockEnd]) rest (itemNodes items) := by
  induction items generalizing fuel with
  | nil =>
    obtain ⟨fuel, rfl⟩ := exists_succ (Nat.zero_lt_of_lt hfuel)
    exact readBlockItems_end
  | cons o items ih =>
    obtain ⟨fuel, rfl⟩ := exists_succ (Nat.zero_lt_of_lt hfuel)
    simp only [itemsTokens, List.cons_append, List.length_cons, List.length_append] at hfuel
    have hdeep : 4 * (valueTokens false o).length + 3 ≤ fuel := by omega
    rw [itemsTokens, List.append_assoc]
    refine readBlockItems_entry (readUnless_item (h o List.mem_cons_self) (by decide) hdeep) ?_
    exact ih (fun o ho => h o (List.mem_cons_of_mem _ ho)) (by omega)

theorem readIndentlessItems_items (h : ∀ o ∈ items, Made o)
    (hfuel : 4 * (itemsTokens items).length + 1 ≤ fuel) (hend : rest.head? ≠ some .blockEntry) :
    Makes (readIndentlessItems fuel) (itemsTokens items) rest (itemNodes items) := by
  induction items generalizing fuel with
  | nil =>
    obtain ⟨fuel, rfl⟩ := exists_succ (Nat.zero_lt_of_lt hfuel)
    exact readIndentlessItems_end hend
  | cons o items ih =>
    obtain ⟨fuel, rfl⟩ := exists_succ (Nat.zero_lt_of_lt hfuel)
    simp only [itemsTokens, List.cons_append, List.length_cons, List.length_append] at hfuel
    have hdeep : 4 * (valueTokens false o).length + 3 ≤ fuel := by omega
    refine readIndentlessItems_entry
      (readUnless_item (h o List.mem_cons_self) (fun _ ht => ht) hdeep) ?_
    exact ih (fun o ho => h o (List.mem_cons_of_mem _ ho)) (by omega)

theorem head?_entriesTokens (entries : List (String × Outline)) (rest : List Token) :
    (entriesTokens entries ++ [Token.blockEnd] ++ rest).head? ≠ some .blockEntry := by
  cases entries <;> exact fun h => nomatch h

theorem readBlockEntries_entries (h : ∀ e ∈ entries, Made e.2)
    (hfuel : 4 * (entriesTokens entries).length + 4 ≤ fuel) :
    Makes (readBlockEntries fuel) (entriesTokens entries ++ [.blockEnd]) rest
      (entryNodes entries) := by
  induction entries generalizing fuel with
  | nil =>
    obtain ⟨fuel, rfl⟩ := exists_succ (Nat.zero_lt_of_lt hfuel)
    exact readBlockEntries_end
  | cons e entries ih =>
    obtain ⟨fuel, rfl⟩ : ∃ n, fuel = n + 3 := ⟨fuel - 3, by omega⟩
    simp only [entriesTokens, List.cons_append, List.length_cons, List.length_append] at hfuel
    have hdeep : 4 * (valueTokens (isSimpleKey e.1) e.2).length + 3 ≤ fuel + 1 := by omega
    rw [entriesTokens, List.append_assoc]
    refine readBlockEntries_entry e.1 (readUnless_value (h e List.mem_cons_self) _
      (head?_entriesTokens entries rest) hdeep) ?_
    exact ih (fun e he => h e (List.mem_cons_of_mem _ he)) (by omega)

theorem made_text (s : String) : Made (.text s) :=
  ⟨fun _ _ _ hfuel => readNode_scalar (Nat.zero_lt_of_lt hfuel) _ s,
    fun _ _ hfuel _ => readNode_scalar (Nat.zero_lt_of_lt hfuel) _ s⟩

theorem made_list (h : ∀ o ∈ items, Made o) : Made (.list items) := by
  cases items with
  | nil =>
    exact ⟨fun _ _ _ hfuel => readNode_emptyList (Nat.lt_of_add_left_lt hfuel),
      fun _ _ hfuel _ => readNode_emptyList (Nat.lt_of_add_left_lt hfuel)⟩
  | cons o items =>
    constructor
    · intro fuel rest indentless hfuel
      obtain ⟨fuel, rfl⟩ := exists_succ (Nat.zero_lt_of_lt hfuel)
      have hlength : (valueTokens false (.list (o :: items))).length =
          (itemsTokens (o :: items)).length + 2 := by
        simp [valueTokens]
      exact readNode_sequence (readBlockItems_items h (by omega))
    · intro fuel rest hfuel hrest
      obtain ⟨fuel, rfl⟩ := exists_succ (Nat.zero_lt_of_lt hfuel)
      have htokens : valueTokens true (.list (o :: items)) = itemsTokens (o :: items) := rfl
      rw [htokens] at hfuel
      exact readNode_indentless (readIndentlessItems_items h (by omega) hrest)

theorem made_record (h : ∀ e ∈ entries, Made e.2) : Made (.record entries) := by
  cases entries with
  | nil =>
    exact ⟨fun _ _ _ hfuel => readNode_emptyRecord (Nat.lt_of_add_left_lt hfuel),
      fun _ _ hfuel _ => readNode_emptyRecord (Nat.lt_of_add_left_lt hfuel)⟩
  | cons e entries =>
    have hnode (fuel : Nat) (rest : List Token) (indentless : Bool)
        (hfuel : 4 * (valueTokens false (.record (e :: entries))).length + 2 ≤ fuel) :
        Makes (readNode fuel true indentless) (valueTokens false (.record (e :: entries))) rest
          (Outline.record (e :: entries)).node := by
      obtain ⟨fuel, rfl⟩ := exists_succ (Nat.zero_lt_of_lt hfuel)
      have hlength : (valueTokens false (.record (e :: entries))).length =
          (entriesTokens (e :: entries)).length + 2 := by
        simp [valueTokens]
      exact readNode_mapping (readBlockEntries_entries h (by omega))
    exact ⟨hnode, fun fuel rest hfuel _ => hnode fuel rest true hfuel⟩

/-- Outlines of any depth are made nodes. -/
theorem made (o : Outline) : Made o := by
  induction o using Outline.induct with
  | text s => exact made_text s
  | list items ih => exact made_list ih
  | record entries ih => exact made_record ih

end Node

/-- The text of a mapping is a document of its node, in which nothing is repeated. -/
theorem Document.ofText?_write (e : String × Outline) (entries : List (String × Outline)) :
    ofText? (Outline.record (e :: entries)).write =
      some ⟨(Outline.record (e :: entries)).node, #[]⟩ := by
  rw [ofText?, tokens?_write]
  have hnode := (Node.made (.record (e :: entries))).item
    (4 * (valueTokens false (.record (e :: entries))).length + 4) [] false (by omega)
    { tokens := [], handles := Node.standardHandles }
  rw [List.append_nil] at hnode
  have hcontent :
      Node.readContent? Node.standardHandles (valueTokens false (.record (e :: entries))) =
      some (⟨(Outline.record (e :: entries)).node, #[]⟩, []) := by
    rw [Node.readContent?]
    change (Node.readNode _ _ _ _).bind _ = _
    rw [hnode]
    simp [Node.Reading.byNumber]
  have hread : Node.readDocument? (valueTokens false (.record (e :: entries))) =
      Node.readContent? Node.standardHandles (valueTokens false (.record (e :: entries))) := by
    simp [Node.readDocument?, valueTokens, Node.takeDirectives?]
  change ofTokens? _ = _
  rw [ofTokens?, hread, hcontent]
  rfl

end Federation.Yaml
