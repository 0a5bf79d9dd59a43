import Federation.Proofs.JsonGrammar

/-!
# What is read of a JSON text

The reader and the grammar agree: a text that spells a tree is read as this tree, however deep it
is and whatever gaps and escapes it uses, and a text that is read to its end spells what was read.
-/

namespace Federation.Json

/-! ### Gaps -/

theorem skipGap_append {gap : List Char} (h : Gap gap) (s : List Char) :
    skipGap (gap ++ s) = skipGap s :=
  List.dropWhile_append_of_pos h

theorem exists_gap (s : List Char) : ∃ gap, Gap gap ∧ s = gap ++ skipGap s :=
  ⟨s.takeWhile isGap, fun _ hc => List.mem_takeWhile_imp hc, List.takeWhile_append_dropWhile.symm⟩

theorem EndsNumber.append {gap s : List Char} (hgap : Gap gap) (h : EndsNumber s) :
    EndsNumber (gap ++ s) := by
  cases gap with
  | nil => exact h
  | cons c gap =>
    rintro d hd
    obtain rfl := Option.some.inj hd
    have hc := hgap c List.mem_cons_self
    simp only [isGap, Bool.or_eq_true, decide_eq_true_eq] at hc
    rcases hc with ((rfl | rfl) | rfl) | rfl <;> decide

theorem endsNumber_cons {c : Char} (h : c.isDigit = false ∧ c ≠ '.' ∧ c ≠ 'e' ∧ c ≠ 'E')
    (s : List Char) : EndsNumber (c :: s) := by
  rintro d hd
  obtain rfl := Option.some.inj hd
  exact h

/-! ### What is spelt is read -/

/-- The text is read as the tree, and what follows it is left. -/
def ReadsTo (j : Json) (s : List Char) : Prop :=
  ∀ fuel rest, s.length ≤ fuel → EndsNumber rest → readValue fuel (s ++ rest) = (j, some rest)

/-- The characters that numbers begin with. -/
def BeginsNumber (c : Char) : Prop :=
  c = '-' ∨ c.isDigit = true

theorem NumberText.exists_cons {s : List Char} (h : NumberText s) :
    ∃ c more, s = c :: more ∧ BeginsNumber c := by
  obtain ⟨signed, hwhole, -, -⟩ := h
  obtain ⟨c, more, rfl⟩ := List.exists_cons_of_ne_nil hwhole.digits.ne_nil
  rcases signed with rfl | rfl
  · exact ⟨c, _, rfl, Or.inr (hwhole.digits.isDigit c List.mem_cons_self)⟩
  · exact ⟨'-', _, rfl, Or.inl rfl⟩

theorem BeginsNumber.ne {c d : Char} (h : BeginsNumber c) (hd : d ≠ '-' ∧ d.isDigit = false) :
    c ≠ d := by
  rintro rfl
  rcases h with h | h
  · exact hd.1 h
  · rw [hd.2] at h
    cases h

theorem BeginsNumber.isGap_eq {c : Char} (h : BeginsNumber c) : isGap c = false := by
  simp only [isGap, Bool.or_eq_false_iff, decide_eq_false_iff_not]
  exact ⟨⟨⟨h.ne (by decide), h.ne (by decide)⟩, h.ne (by decide)⟩, h.ne (by decide)⟩

/-- A value begins neither with a gap nor with the end of an array. -/
theorem exists_cons_of_spells {j : Json} {s : List Char} (h : Spells j s) :
    ∃ c more, s = c :: more ∧ isGap c = false ∧ c ≠ ']' := by
  cases j with
  | null => exact ⟨'n', _, h, rfl, by decide⟩
  | bool b =>
    cases b with
    | true => exact ⟨'t', _, h, rfl, by decide⟩
    | false => exact ⟨'f', _, h, rfl, by decide⟩
  | number spelling =>
    obtain ⟨c, more, rfl, hc⟩ := h.2.exists_cons
    exact ⟨c, more, rfl, hc.isGap_eq, hc.ne (by decide)⟩
  | text value =>
    obtain ⟨body, units, -, rfl, -⟩ := h
    exact ⟨_, _, rfl, rfl, by decide⟩
  | array items =>
    obtain ⟨body, -, rfl⟩ := h
    exact ⟨_, _, rfl, rfl, by decide⟩
  | object members =>
    obtain ⟨body, -, rfl⟩ := h
    exact ⟨_, _, rfl, rfl, by decide⟩
  | broken => exact False.elim h

theorem exists_succ_of_lt {m n : Nat} (h : m < n) : ∃ k, n = k + 1 ∧ m ≤ k :=
  ⟨n - 1, by omega, by omega⟩

theorem readsTo_number {s : List Char} (h : NumberText s) :
    ReadsTo (number (String.ofList s)) s := by
  intro fuel rest hfuel hrest
  obtain ⟨c, more, rfl, hc⟩ := h.exists_cons
  obtain ⟨fuel, rfl, -⟩ := exists_succ_of_lt hfuel
  have hnumber := number?_append h hrest
  rw [List.cons_append] at hnumber ⊢
  rw [readValue, skipGap_cons hc.isGap_eq]
  split
  · exact absurd (List.cons.inj ‹_›).1 (hc.ne (by decide))
  · exact absurd (List.cons.inj ‹_›).1 (hc.ne (by decide))
  · exact absurd (List.cons.inj ‹_›).1 (hc.ne (by decide))
  · exact absurd (List.cons.inj ‹_›).1 (hc.ne (by decide))
  · exact absurd (List.cons.inj ‹_›).1 (hc.ne (by decide))
  · exact absurd (List.cons.inj ‹_›).1 (hc.ne (by decide))
  · rw [hnumber]

theorem readsTo_text {value : Option String} {s : List Char} (h : StringText value s) :
    ReadsTo (text value) s := by
  intro fuel rest hfuel _
  obtain ⟨body, units, hbody, rfl, rfl⟩ := h
  obtain ⟨fuel, rfl, -⟩ := exists_succ_of_lt hfuel
  have hstring := string?_of_body hbody rest
  rw [List.cons_append, List.append_assoc, readValue, skipGap_cons rfl]
  simp only [List.singleton_append, hstring]

/-- With gaps around it, a value is read up to the gap behind it. -/
theorem readValue_padded {j : Json} {s rest : List Char} {fuel : Nat}
    (h : Padded (Spells j) s) (reads : ∀ body, Spells j body → ReadsTo j body)
    (hfuel : s.length ≤ fuel) (hrest : EndsNumber rest) :
    ∃ left, readValue fuel (s ++ rest) = (j, some left) ∧ skipGap left = skipGap rest := by
  obtain ⟨before, body, after, hbefore, hbody, hafter, rfl⟩ := h
  rw [List.length_append, List.length_append] at hfuel
  refine ⟨after ++ rest, ?_, skipGap_append hafter rest⟩
  rw [← readValue_skipGap, List.append_assoc, skipGap_append hbefore, readValue_skipGap,
    List.append_assoc]
  exact reads body hbody fuel _ (by omega) (hrest.append hafter)

theorem endsNumber_comma (s : List Char) : EndsNumber (',' :: s) :=
  endsNumber_cons (by decide) s

theorem endsNumber_bracket (s : List Char) : EndsNumber (']' :: s) :=
  endsNumber_cons (by decide) s

theorem endsNumber_brace (s : List Char) : EndsNumber ('}' :: s) :=
  endsNumber_cons (by decide) s

theorem readItems_of_spells {items : List Json} (hne : items ≠ [])
    (reads : ∀ j ∈ items, ∀ body, Spells j body → ReadsTo j body) {body : List Char}
    (h : SpellsItems items body) {fuel : Nat} (hfuel : body.length < fuel) (rest : List Char) :
    readItems fuel (body ++ ']' :: rest) = (items, some rest) := by
  induction items generalizing body fuel with
  | nil => exact absurd rfl hne
  | cons j more ih =>
    obtain ⟨fuel, rfl, hle⟩ := exists_succ_of_lt hfuel
    have hj := reads j List.mem_cons_self
    cases more with
    | nil =>
      obtain ⟨left, hvalue, hleft⟩ := readValue_padded h hj hle (endsNumber_bracket rest)
      exact readItems_end hvalue (hleft.trans (skipGap_cons rfl rest))
    | cons k more =>
      obtain ⟨first, tail, hfirst, htail, rfl⟩ := h
      rw [List.length_append, List.length_cons] at hle
      have hfirst_le : first.length ≤ fuel := by omega
      have htail_lt : tail.length < fuel := by omega
      obtain ⟨left, hvalue, hleft⟩ := readValue_padded hfirst hj hfirst_le
        (endsNumber_comma (tail ++ ']' :: rest))
      have htail := ih (List.cons_ne_nil k more) (fun i hi => reads i (List.mem_cons_of_mem _ hi))
        htail htail_lt
      rw [List.append_assoc, List.cons_append,
        readItems_comma hvalue (hleft.trans (skipGap_cons rfl _)), htail]

theorem skipGap_padded {P : List Char → Prop} {s : List Char} (h : Padded P s)
    (begins : ∀ body, P body → ∃ c more, body = c :: more ∧ isGap c = false) (rest : List Char) :
    ∃ c more tail, P (c :: more) ∧ skipGap (s ++ rest) = c :: tail := by
  obtain ⟨before, body, after, hbefore, hbody, -, rfl⟩ := h
  obtain ⟨c, more, rfl, hc⟩ := begins body hbody
  refine ⟨c, more, more ++ (after ++ rest), hbody, ?_⟩
  rw [List.append_assoc, skipGap_append hbefore, List.append_assoc, List.cons_append,
    skipGap_cons hc]

/-- After the bracket of an array that is not empty comes its first item. -/
theorem skipGap_items {j : Json} {more : List Json} {body : List Char}
    (h : SpellsItems (j :: more) body) (rest : List Char) :
    ∃ c tail, skipGap (body ++ rest) = c :: tail ∧ c ≠ ']' := by
  have hfirst : ∃ first left, Padded (Spells j) first ∧ body = first ++ left := by
    cases more with
    | nil => exact ⟨body, [], h, (List.append_nil body).symm⟩
    | cons k more =>
      obtain ⟨first, tail, hfirst, -, rfl⟩ := h
      exact ⟨first, ',' :: tail, hfirst, rfl⟩
  obtain ⟨first, left, hfirst, rfl⟩ := hfirst
  have begins : ∀ item, Spells j item → ∃ c more, item = c :: more ∧ isGap c = false := by
    intro item hitem
    obtain ⟨c, more, hitem, hc, -⟩ := exists_cons_of_spells hitem
    exact ⟨c, more, hitem, hc⟩
  obtain ⟨c, more, tail, hitem, htail⟩ := skipGap_padded hfirst begins (left ++ rest)
  obtain ⟨d, _, heq, -, hne⟩ := exists_cons_of_spells hitem
  obtain ⟨rfl, -⟩ := List.cons.inj heq
  exact ⟨c, tail, by rw [List.append_assoc, htail], hne⟩

theorem readsTo_array {items : List Json}
    (reads : ∀ j ∈ items, ∀ body, Spells j body → ReadsTo j body) {s : List Char}
    (h : Spells (array items) s) : ReadsTo (array items) s := by
  intro fuel rest hfuel _
  obtain ⟨body, hbody, rfl⟩ := h
  rw [List.length_cons, List.length_append, List.length_singleton] at hfuel
  obtain ⟨fuel, rfl, hle⟩ := exists_succ_of_lt hfuel
  rw [List.cons_append, List.append_assoc, List.singleton_append]
  cases items with
  | nil =>
    have hend : skipGap (body ++ ']' :: rest) = ']' :: rest := by
      rw [skipGap_append hbody, skipGap_cons rfl]
    rw [readValue, skipGap_cons rfl]
    simp only [hend]
  | cons j more =>
    obtain ⟨c, tail, hfirst, hc⟩ := skipGap_items hbody (']' :: rest)
    rw [readValue_bracket hfirst hc,
      readItems_of_spells (List.cons_ne_nil j more) reads hbody (by omega)]

/-- A name, the colon behind it and its value, up to the comma or the brace that follows. -/
theorem readMembers_member {k : Option String} {j : Json} {name value rest : List Char}
    {fuel : Nat} (hname : Padded (StringText k) name) (hvalue : Padded (Spells j) value)
    (reads : ∀ body, Spells j body → ReadsTo j body) (hfuel : value.length ≤ fuel)
    (hrest : EndsNumber rest) :
    ∃ body after left, skipGap (name ++ ':' :: (value ++ rest)) = '\x22' :: body ∧
      string? body = some (k, after) ∧ skipGap after = ':' :: (value ++ rest) ∧
      readValue fuel (value ++ rest) = (j, some left) ∧ skipGap left = skipGap rest := by
  obtain ⟨before, _, gap, hbefore, ⟨body, units, hbody, rfl, rfl⟩, hgap, rfl⟩ := hname
  obtain ⟨left, hread, hleft⟩ := readValue_padded hvalue reads hfuel hrest
  refine ⟨body ++ '\x22' :: (gap ++ ':' :: (value ++ rest)), gap ++ ':' :: (value ++ rest), left,
    ?_, string?_of_body hbody _, ?_, hread, hleft⟩
  · rw [List.append_assoc, skipGap_append hbefore, List.cons_append, List.cons_append,
      skipGap_cons rfl, List.append_assoc, List.append_assoc, List.singleton_append]
  · rw [skipGap_append hgap, skipGap_cons rfl]

theorem readMembers_of_spells {members : List (Option String × Json)} (hne : members ≠ [])
    (reads : ∀ m ∈ members, ∀ body, Spells m.2 body → ReadsTo m.2 body) {body : List Char}
    (h : SpellsMembers members body) {fuel : Nat} (hfuel : body.length < fuel)
    (rest : List Char) :
    readMembers fuel (body ++ '}' :: rest) = (members, some rest) := by
  induction members generalizing body fuel with
  | nil => exact absurd rfl hne
  | cons m more ih =>
    obtain ⟨k, j⟩ := m
    obtain ⟨fuel, rfl, hle⟩ := exists_succ_of_lt hfuel
    have hj := reads (k, j) List.mem_cons_self
    cases more with
    | nil =>
      obtain ⟨name, value, hname, hvalue, rfl⟩ := h
      rw [List.length_append, List.length_cons] at hle
      have hvalue_le : value.length ≤ fuel := by omega
      obtain ⟨body, after, left, hquote, hstring, hcolon, hread, hleft⟩ :=
        readMembers_member hname hvalue hj hvalue_le (endsNumber_brace rest)
      rw [skipGap_cons rfl] at hleft
      rw [List.append_assoc, List.cons_append]
      simp only [readMembers, hquote, hstring, hcolon, hread, hleft]
    | cons n more =>
      obtain ⟨name, value, tail, hname, hvalue, htail, rfl⟩ := h
      rw [List.length_append, List.length_cons, List.length_append, List.length_cons] at hle
      have hvalue_le : value.length ≤ fuel := by omega
      have htail_lt : tail.length < fuel := by omega
      obtain ⟨body, after, left, hquote, hstring, hcolon, hread, hleft⟩ :=
        readMembers_member hname hvalue hj hvalue_le (endsNumber_comma (tail ++ '}' :: rest))
      have htail := ih (List.cons_ne_nil n more) (fun i hi => reads i (List.mem_cons_of_mem _ hi))
        htail htail_lt
      rw [skipGap_cons rfl] at hleft
      rw [List.append_assoc, List.cons_append, List.append_assoc, List.cons_append]
      simp only [readMembers, hquote, hstring, hcolon, hread, hleft, htail]

/-- After the brace of an object that is not empty comes the quote of its first name. -/
theorem skipGap_members {m : Option String × Json} {more : List (Option String × Json)}
    {body : List Char} (h : SpellsMembers (m :: more) body) (rest : List Char) :
    ∃ tail, skipGap (body ++ rest) = '\x22' :: tail := by
  have hfirst : ∃ name left, Padded (StringText m.1) name ∧ body = name ++ left := by
    cases more with
    | nil =>
      obtain ⟨name, value, hname, -, rfl⟩ := h
      exact ⟨name, _, hname, rfl⟩
    | cons n more =>
      obtain ⟨name, value, tail, hname, -, -, rfl⟩ := h
      exact ⟨name, _, hname, rfl⟩
  obtain ⟨name, left, hname, rfl⟩ := hfirst
  have begins : ∀ s, StringText m.1 s → ∃ c more, s = c :: more ∧ isGap c = false := by
    rintro s ⟨body, units, -, rfl, -⟩
    exact ⟨_, _, rfl, rfl⟩
  obtain ⟨c, _, tail, ⟨_, _, -, heq, -⟩, htail⟩ := skipGap_padded hname begins (left ++ rest)
  obtain ⟨rfl, -⟩ := List.cons.inj heq
  exact ⟨tail, by rw [List.append_assoc, htail]⟩

theorem readsTo_object {members : List (Option String × Json)}
    (reads : ∀ m ∈ members, ∀ body, Spells m.2 body → ReadsTo m.2 body) {s : List Char}
    (h : Spells (object members) s) : ReadsTo (object members) s := by
  intro fuel rest hfuel _
  obtain ⟨body, hbody, rfl⟩ := h
  rw [List.length_cons, List.length_append, List.length_singleton] at hfuel
  obtain ⟨fuel, rfl, hle⟩ := exists_succ_of_lt hfuel
  rw [List.cons_append, List.append_assoc, List.singleton_append]
  cases members with
  | nil =>
    have hend : skipGap (body ++ '}' :: rest) = '}' :: rest := by
      rw [skipGap_append hbody, skipGap_cons rfl]
    rw [readValue, skipGap_cons rfl]
    simp only [hend]
  | cons m more =>
    obtain ⟨tail, hfirst⟩ := skipGap_members hbody ('}' :: rest)
    rw [readValue_brace hfirst (by decide),
      readMembers_of_spells (List.cons_ne_nil m more) reads hbody (by omega)]

/-- Whatever spells a value is read as this value, whatever follows it. -/
theorem readsTo_of_spells : (j : Json) → ∀ s, Spells j s → ReadsTo j s
  | null, s, h => by
    rintro fuel rest hfuel -
    obtain rfl : s = "null".toList := h
    obtain ⟨fuel, rfl, -⟩ := exists_succ_of_lt hfuel
    rfl
  | bool true, s, h => by
    rintro fuel rest hfuel -
    obtain rfl : s = "true".toList := h
    obtain ⟨fuel, rfl, -⟩ := exists_succ_of_lt hfuel
    rfl
  | bool false, s, h => by
    rintro fuel rest hfuel -
    obtain rfl : s = "false".toList := h
    obtain ⟨fuel, rfl, -⟩ := exists_succ_of_lt hfuel
    rfl
  | number spelling, s, h => by
    obtain ⟨rfl, hnumber⟩ : s = spelling.toList ∧ NumberText s := h
    have hread := readsTo_number hnumber
    rwa [String.ofList_toList] at hread
  | text value, s, h => readsTo_text h
  | array items, s, h => readsTo_array (fun j _ body => readsTo_of_spells j body) h
  | object members, s, h => readsTo_object (fun m _ body => readsTo_of_spells m.2 body) h
  | broken, s, h => False.elim h
termination_by j => sizeOf j
decreasing_by
  · have hmem := List.sizeOf_lt_of_mem ‹j ∈ items›
    rw [array.sizeOf_spec]
    omega
  · have hmem := List.sizeOf_lt_of_mem ‹m ∈ members›
    obtain ⟨k, j⟩ := m
    rw [Prod.mk.sizeOf_spec] at hmem
    rw [object.sizeOf_spec]
    dsimp only
    omega

theorem read_of_denotes {s : String} {j : Json} (h : Denotes s j) : read s = (j, true) := by
  have hfuel : s.toList.length ≤ 2 * s.toList.length + 1 := by omega
  have hend : EndsNumber [] := nofun
  obtain ⟨left, hvalue, hleft⟩ := readValue_padded h (readsTo_of_spells j) hfuel hend
  rw [List.append_nil] at hvalue
  simp only [read, hvalue, hleft]
  rfl

/-! ### What is read is spelt -/

/-- What is read as a value with so much fuel is spelt, behind a gap. -/
def SpeltValues (fuel : Nat) : Prop :=
  ∀ s j rest, readValue fuel s = (j, some rest) →
    ∃ gap body, Gap gap ∧ Spells j body ∧ s = gap ++ (body ++ rest)

/-- What is read as the items of an array with so much fuel is spelt. -/
def SpeltItems (fuel : Nat) : Prop :=
  ∀ s items rest, readItems fuel s = (items, some rest) →
    items ≠ [] ∧ ∃ body, SpellsItems items body ∧ s = body ++ ']' :: rest

/-- What is read as the members of an object with so much fuel is spelt. -/
def SpeltMembers (fuel : Nat) : Prop :=
  ∀ s members rest, readMembers fuel s = (members, some rest) →
    members ≠ [] ∧ ∃ body, SpellsMembers members body ∧ s = body ++ '}' :: rest

theorem exists_text_of_string? {s rest : List Char} {value : Option String}
    (h : string? s = some (value, rest)) :
    ∃ t, StringText value t ∧ '\x22' :: s = t ++ rest := by
  obtain ⟨⟨units, after⟩, hunits, heq⟩ := Option.map_eq_some_iff.1 h
  obtain ⟨rfl, rfl⟩ := Prod.mk.inj heq
  obtain ⟨body, hbody, rfl⟩ := exists_body_of_stringUnits? hunits
  exact ⟨_, ⟨body, units, hbody, rfl, rfl⟩, by simp⟩

theorem SpeltValues.padded {fuel : Nat} (ih : SpeltValues fuel) {s left : List Char} {j : Json}
    (h : readValue fuel s = (j, some left)) :
    ∃ t, Padded (Spells j) t ∧ s = t ++ skipGap left := by
  obtain ⟨before, body, hbefore, hbody, rfl⟩ := ih s j left h
  obtain ⟨after, hafter, hleft⟩ := exists_gap left
  refine ⟨before ++ (body ++ after), ⟨before, body, after, hbefore, hbody, hafter, rfl⟩, ?_⟩
  rw [List.append_assoc, List.append_assoc, ← hleft]

theorem readItems_cases {fuel : Nat} {s rest : List Char} {items : List Json}
    (h : readItems (fuel + 1) s = (items, some rest)) :
    ∃ j left, readValue fuel s = (j, some left) ∧
      (items = [j] ∧ skipGap left = ']' :: rest ∨
        ∃ more after, readItems fuel after = (more, some rest) ∧ items = j :: more ∧
          skipGap left = ',' :: after) := by
  simp only [readItems] at h
  split at h
  · cases h
  · rename_i j left hvalue
    refine ⟨j, left, hvalue, ?_⟩
    split at h
    · rename_i hend
      obtain ⟨rfl, heq⟩ := Prod.mk.inj h
      obtain rfl := Option.some.inj heq
      exact Or.inl ⟨rfl, hend⟩
    · rename_i after hcomma
      obtain ⟨rfl, hrest⟩ := Prod.mk.inj h
      exact Or.inr ⟨_, after, Prod.ext rfl hrest, rfl, hcomma⟩
    · cases h

theorem SpeltItems.succ {fuel : Nat} (ihv : SpeltValues fuel) (ih : SpeltItems fuel) :
    SpeltItems (fuel + 1) := by
  intro s items rest h
  obtain ⟨j, left, hvalue, ⟨rfl, hend⟩ | ⟨more, after, hmore, rfl, hcomma⟩⟩ := readItems_cases h
  · obtain ⟨t, ht, rfl⟩ := ihv.padded hvalue
    exact ⟨List.cons_ne_nil _ _, t, ht, by rw [hend]⟩
  · obtain ⟨t, ht, rfl⟩ := ihv.padded hvalue
    obtain ⟨hne, body, hbody, rfl⟩ := ih _ _ _ hmore
    obtain ⟨k, more, rfl⟩ := List.exists_cons_of_ne_nil hne
    refine ⟨List.cons_ne_nil _ _, t ++ ',' :: body, ⟨t, body, ht, hbody, rfl⟩, ?_⟩
    rw [hcomma, List.append_assoc, List.cons_append]

theorem readMembers_cases {fuel : Nat} {s rest : List Char}
    {members : List (Option String × Json)}
    (h : readMembers (fuel + 1) s = (members, some rest)) :
    ∃ body k after colon j left, skipGap s = '\x22' :: body ∧ string? body = some (k, after) ∧
      skipGap after = ':' :: colon ∧ readValue fuel colon = (j, some left) ∧
      (members = [(k, j)] ∧ skipGap left = '}' :: rest ∨
        ∃ more next, readMembers fuel next = (more, some rest) ∧ members = (k, j) :: more ∧
          skipGap left = ',' :: next) := by
  simp only [readMembers] at h
  split at h
  · rename_i body hquote
    split at h
    · cases h
    · rename_i k after hstring
      split at h
      · rename_i colon hcolon
        split at h
        · cases h
        · rename_i j left hvalue
          refine ⟨body, k, after, colon, j, left, hquote, hstring, hcolon, hvalue, ?_⟩
          split at h
          · rename_i hend
            obtain ⟨rfl, heq⟩ := Prod.mk.inj h
            obtain rfl := Option.some.inj heq
            exact Or.inl ⟨rfl, hend⟩
          · rename_i next hcomma
            obtain ⟨rfl, hrest⟩ := Prod.mk.inj h
            exact Or.inr ⟨_, next, Prod.ext rfl hrest, rfl, hcomma⟩
          · cases h
      · cases h
  · cases h

/-- A name up to the colon, with the gaps around it. -/
theorem padded_of_string? {s body after : List Char} {k : Option String}
    (hquote : skipGap s = '\x22' :: body) (hstring : string? body = some (k, after)) :
    ∃ t, Padded (StringText k) t ∧ s = t ++ skipGap after := by
  obtain ⟨before, hbefore, hs⟩ := exists_gap s
  obtain ⟨name, hname, heq⟩ := exists_text_of_string? hstring
  obtain ⟨gap, hgap, hafter⟩ := exists_gap after
  refine ⟨before ++ (name ++ gap), ⟨before, name, gap, hbefore, hname, hgap, rfl⟩, ?_⟩
  rw [List.append_assoc, List.append_assoc, ← hafter, ← heq, ← hquote, ← hs]

theorem SpeltMembers.succ {fuel : Nat} (ihv : SpeltValues fuel) (ih : SpeltMembers fuel) :
    SpeltMembers (fuel + 1) := by
  intro s members rest h
  obtain ⟨body, k, after, colon, j, left, hquote, hstring, hcolon, hvalue, hmembers⟩ :=
    readMembers_cases h
  obtain ⟨name, hname, rfl⟩ := padded_of_string? hquote hstring
  obtain ⟨value, ht, rfl⟩ := ihv.padded hvalue
  rw [hcolon]
  rcases hmembers with ⟨rfl, hend⟩ | ⟨more, next, hmore, rfl, hcomma⟩
  · refine ⟨List.cons_ne_nil _ _, name ++ ':' :: value, ⟨name, value, hname, ht, rfl⟩, ?_⟩
    rw [hend, List.append_assoc, List.cons_append]
  · obtain ⟨hne, body, hbody, rfl⟩ := ih _ _ _ hmore
    obtain ⟨n, more, rfl⟩ := List.exists_cons_of_ne_nil hne
    refine ⟨List.cons_ne_nil _ _, name ++ ':' :: (value ++ ',' :: body),
      ⟨name, value, body, hname, ht, hbody, rfl⟩, ?_⟩
    rw [hcomma, List.append_assoc, List.cons_append, List.append_assoc, List.cons_append]

theorem SpeltValues.succ {fuel : Nat} (ihi : SpeltItems fuel) (ihm : SpeltMembers fuel) :
    SpeltValues (fuel + 1) := by
  intro s j rest h
  obtain ⟨gap, hgap, hs⟩ := exists_gap s
  -- it is enough to find the value behind the gap
  suffices hbody : ∃ body, Spells j body ∧ skipGap s = body ++ rest by
    obtain ⟨body, hbody, heq⟩ := hbody
    exact ⟨gap, body, hgap, hbody, by rw [← heq, ← hs]⟩
  simp only [readValue] at h
  split at h
  · cases h
    exact ⟨_, rfl, ‹_›⟩
  · cases h
    exact ⟨_, rfl, ‹_›⟩
  · cases h
    exact ⟨_, rfl, ‹_›⟩
  · rename_i body hquote
    split at h
    · rename_i value after hstring
      cases h
      obtain ⟨t, ht, heq⟩ := exists_text_of_string? hstring
      exact ⟨t, ht, hquote.trans heq⟩
    · cases h
  · rename_i after hbracket
    split at h
    · rename_i hend
      cases h
      obtain ⟨inner, hinner, hafter⟩ := exists_gap after
      refine ⟨'[' :: (inner ++ [']']), ⟨inner, hinner, rfl⟩, ?_⟩
      rw [hbracket, hafter, hend, List.cons_append, List.append_assoc, List.singleton_append]
    · obtain ⟨rfl, hrest⟩ := Prod.mk.inj h
      rw [readItems_skipGap] at hrest
      obtain ⟨-, body, hbody, rfl⟩ := ihi _ _ _ (Prod.ext rfl hrest)
      refine ⟨'[' :: (body ++ [']']), ⟨body, ?_, rfl⟩, ?_⟩
      · rw [readItems_skipGap]
        exact hbody
      · rw [hbracket, List.cons_append, List.append_assoc, List.singleton_append]
  · rename_i after hbrace
    split at h
    · rename_i hend
      cases h
      obtain ⟨inner, hinner, hafter⟩ := exists_gap after
      refine ⟨'{' :: (inner ++ ['}']), ⟨inner, hinner, rfl⟩, ?_⟩
      rw [hbrace, hafter, hend, List.cons_append, List.append_assoc, List.singleton_append]
    · obtain ⟨rfl, hrest⟩ := Prod.mk.inj h
      rw [readMembers_skipGap] at hrest
      obtain ⟨-, body, hbody, rfl⟩ := ihm _ _ _ (Prod.ext rfl hrest)
      refine ⟨'{' :: (body ++ ['}']), ⟨body, ?_, rfl⟩, ?_⟩
      · rw [readMembers_skipGap]
        exact hbody
      · rw [hbrace, List.cons_append, List.append_assoc, List.singleton_append]
  · rename_i hnumber
    split at h
    · rename_i spelling after hread
      cases h
      obtain ⟨heq, hspelling⟩ := number?_eq_some hread
      exact ⟨_, ⟨rfl, hspelling⟩, heq⟩
    · cases h

theorem spelt (fuel : Nat) : SpeltValues fuel ∧ SpeltItems fuel ∧ SpeltMembers fuel := by
  induction fuel with
  | zero =>
    refine ⟨fun s j rest h => ?_, fun s items rest h => ?_, fun s members rest h => ?_⟩
    · rw [readValue] at h
      cases h
    · rw [readItems] at h
      cases h
    · rw [readMembers] at h
      cases h
  | succ fuel ih =>
    obtain ⟨values, items, members⟩ := ih
    exact ⟨.succ items members, .succ values items, .succ values members⟩

/-- A text denotes exactly the tree that it is read as, if it is read to its end. -/
theorem denotes_iff {s : String} {j : Json} : Denotes s j ↔ read s = (j, true) := by
  refine ⟨read_of_denotes, fun h => ?_⟩
  simp only [read] at h
  split at h
  · cases h
  · rename_i j' left hvalue
    obtain ⟨rfl, hend⟩ := Prod.mk.inj h
    obtain ⟨t, ⟨before, body, after, hbefore, hbody, hafter, rfl⟩, hs⟩ :=
      (spelt _).1.padded hvalue
    rw [List.isEmpty_iff.1 hend, List.append_nil] at hs
    exact ⟨before, body, after, hbefore, hbody, hafter, hs⟩

end Federation.Json
