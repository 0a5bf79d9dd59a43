/-!
# Tables

A table holds one value for each of finitely many keys, in ascending order of the keys. Inserting
under a key that is present replaces its value, so a table is determined by its look-ups.
-/

namespace Federation

universe u v

/-- Values by key, in ascending order of the keys. -/
structure Table (κ : Type u) (α : Type v) [LT κ] where
  entries : List (κ × α)
  ascending : entries.Pairwise (fun a b => a.1 < b.1)

namespace Table

section Order

variable {κ : Type u} {α : Type v} [LT κ] [DecidableLT κ]

/-- Puts a value under a key of an ascending list, in place of an earlier one. -/
def insertEntry (k : κ) (x : α) : List (κ × α) → List (κ × α)
  | [] => [(k, x)]
  | (k', x') :: rest =>
    if k < k' then (k, x) :: (k', x') :: rest
    else if k' < k then (k', x') :: insertEntry k x rest
    else (k, x) :: rest

theorem mem_insertEntry {k : κ} {x : α} {l : List (κ × α)} {e : κ × α}
    (h : e ∈ insertEntry k x l) : e = (k, x) ∨ e ∈ l := by
  induction l with
  | nil => simpa [insertEntry] using h
  | cons head rest ih =>
    simp only [insertEntry] at h
    split at h
    · simpa using h
    · split at h
      · rcases List.mem_cons.1 h with h | h
        · exact Or.inr (by simp [h])
        · rcases ih h with h | h
          · exact Or.inl h
          · exact Or.inr (List.mem_cons_of_mem _ h)
      · rcases List.mem_cons.1 h with h | h
        · exact Or.inl h
        · exact Or.inr (List.mem_cons_of_mem _ h)

variable [LE κ] [Std.LawfulOrderLT κ] [Std.IsLinearOrder κ]

theorem pairwise_insertEntry {k : κ} {x : α} {l : List (κ × α)}
    (h : l.Pairwise (fun a b => a.1 < b.1)) :
    (insertEntry k x l).Pairwise (fun a b => a.1 < b.1) := by
  induction l with
  | nil => simp [insertEntry]
  | cons head rest ih =>
    obtain ⟨hhead, hrest⟩ := List.pairwise_cons.1 h
    simp only [insertEntry]
    split
    · rename_i hlt
      refine List.pairwise_cons.2 ⟨fun e he => ?_, h⟩
      rcases List.mem_cons.1 he with rfl | he
      · exact hlt
      · exact Std.lt_trans hlt (hhead e he)
    · split
      · rename_i hlt
        refine List.pairwise_cons.2 ⟨fun e he => ?_, ih hrest⟩
        rcases mem_insertEntry he with rfl | he
        · exact hlt
        · exact hhead e he
      · rename_i h₁ h₂
        have heq : k = head.1 :=
          Std.le_antisymm (Std.not_lt.1 h₂) (Std.not_lt.1 h₁)
        exact List.pairwise_cons.2 ⟨fun e he => heq ▸ hhead e he, hrest⟩

/-- The table with `x` under `k`. -/
def insert (t : Table κ α) (k : κ) (x : α) : Table κ α :=
  ⟨insertEntry k x t.entries, pairwise_insertEntry t.ascending⟩

end Order

variable {κ : Type u} {α : Type v} [LT κ]

/-- The table without entries. -/
def empty : Table κ α :=
  ⟨[], .nil⟩

instance : EmptyCollection (Table κ α) :=
  ⟨empty⟩

instance : Inhabited (Table κ α) :=
  ⟨empty⟩

instance [DecidableEq κ] [DecidableEq α] : DecidableEq (Table κ α) := fun s t =>
  if h : s.entries = t.entries then
    isTrue (by cases s; cases t; simp_all)
  else
    isFalse (fun e => h (by rw [e]))

/-- The table of a list of entries; of several under one key the last counts. -/
def ofList [DecidableLT κ] [LE κ] [Std.LawfulOrderLT κ] [Std.IsLinearOrder κ]
    (l : List (κ × α)) : Table κ α :=
  l.foldl (fun t e => t.insert e.1 e.2) empty

/-- The value under a key. -/
def get? [BEq κ] (t : Table κ α) (k : κ) : Option α :=
  t.entries.lookup k

theorem get?_empty [BEq κ] (k : κ) : (empty : Table κ α).get? k = none :=
  rfl

/-- Whether a key has a value. -/
def contains [BEq κ] (t : Table κ α) (k : κ) : Bool :=
  (t.get? k).isSome

/-- The keys in ascending order. -/
def keys (t : Table κ α) : List κ :=
  t.entries.map (·.1)

/-- The values in the order of their keys. -/
def values (t : Table κ α) : List α :=
  t.entries.map (·.2)

/-- The number of keys. -/
def size (t : Table κ α) : Nat :=
  t.entries.length

/-- Whether there are no keys. -/
def isEmpty (t : Table κ α) : Bool :=
  t.entries.isEmpty

theorem keys_ascending (t : Table κ α) : t.keys.Pairwise (· < ·) :=
  List.pairwise_map.2 t.ascending

theorem keys_nodup [LE κ] [Std.LawfulOrderLT κ] [Std.IsPreorder κ] (t : Table κ α) :
    t.keys.Nodup := by
  refine t.keys_ascending.imp ?_
  rintro a _ h rfl
  exact Std.lt_irrefl h

/-- Keys that come in any order, each once, are listed by sorting them. -/
theorem mergeSort_eq_keys [LE κ] [Std.LawfulOrderLT κ] [Std.IsLinearOrder κ] [DecidableLE κ]
    {t : Table κ α} {l : List κ} (distinct : l.Nodup) (hl : ∀ k, k ∈ l ↔ k ∈ t.keys) :
    l.mergeSort = t.keys := by
  have hperm : l.mergeSort.Perm t.keys :=
    (l.mergeSort_perm _).trans ((List.perm_ext_iff_of_nodup distinct t.keys_nodup).2 hl)
  have hsorted : l.mergeSort.Pairwise fun a b => decide (a ≤ b) = true := by
    refine List.pairwise_mergeSort (fun a b c hab hbc => ?_) (fun a b => ?_) l
    · exact decide_eq_true (Std.le_trans (of_decide_eq_true hab) (of_decide_eq_true hbc))
    · simpa using Std.le_total
  have hkeys : t.keys.Pairwise (· ≤ ·) := t.keys_ascending.imp Std.le_of_lt
  refine hperm.eq_of_pairwise (fun _ _ _ _ => Std.le_antisymm) ?_ hkeys
  exact hsorted.imp of_decide_eq_true

theorem entries_nodup [LE κ] [Std.LawfulOrderLT κ] [Std.IsPreorder κ] (t : Table κ α) :
    t.entries.Nodup :=
  List.Pairwise.of_map (·.1) (fun _ _ hne heq => hne (congrArg _ heq)) t.keys_nodup

omit [LT κ] in
theorem lookup_eq_some_iff_mem [BEq κ] [LawfulBEq κ] {l : List (κ × α)}
    (distinct : (l.map (·.1)).Nodup) {k : κ} {x : α} : l.lookup k = some x ↔ (k, x) ∈ l := by
  induction l with
  | nil => simp
  | cons head rest ih =>
    obtain ⟨k₀, x₀⟩ := head
    obtain ⟨hhead, hrest⟩ := List.nodup_cons.1 distinct
    by_cases h : k = k₀
    · subst h
      have hx : (k, x) ∉ rest := fun hmem => hhead (List.mem_map_of_mem (f := (·.1)) hmem)
      simp [hx, eq_comm]
    · rw [List.lookup_cons, beq_false_of_ne h]
      simp [h, ih hrest]

section Lookup

variable [LE κ] [Std.LawfulOrderLT κ] [Std.IsLinearOrder κ] [BEq κ] [LawfulBEq κ]

/-- A table is determined by its look-ups. -/
theorem get?_eq_some_iff {t : Table κ α} {k : κ} {x : α} :
    t.get? k = some x ↔ (k, x) ∈ t.entries :=
  lookup_eq_some_iff_mem t.keys_nodup

theorem mem_keys_iff {t : Table κ α} {k : κ} : k ∈ t.keys ↔ ∃ x, t.get? k = some x := by
  simp [keys, get?_eq_some_iff]

theorem mem_values_iff {t : Table κ α} {x : α} : x ∈ t.values ↔ ∃ k, t.get? k = some x := by
  simp [values, get?_eq_some_iff]

theorem contains_iff {t : Table κ α} {k : κ} : t.contains k = true ↔ k ∈ t.keys := by
  rw [contains, Option.isSome_iff_exists, mem_keys_iff]

variable [DecidableLT κ]

theorem lookup_insertEntry (k k' : κ) (x : α) (l : List (κ × α)) :
    (insertEntry k x l).lookup k' = if k' == k then some x else l.lookup k' := by
  induction l with
  | nil => by_cases h : k' == k <;> simp [insertEntry, List.lookup_cons, h]
  | cons head rest ih =>
    obtain ⟨k₀, x₀⟩ := head
    simp only [insertEntry]
    split
    · by_cases h : k' == k <;> simp [List.lookup_cons, h]
    · split
      · rename_i hlt
        have hne : k₀ ≠ k := by
          rintro rfl
          exact Std.lt_irrefl hlt
        by_cases h₀ : k' == k₀
        · have hk : (k' == k) = false := by
            rw [eq_of_beq h₀]
            exact beq_false_of_ne hne
          simp [List.lookup_cons, h₀, hk]
        · simp [List.lookup_cons, h₀, ih]
      · rename_i h₁ h₂
        obtain rfl : k = k₀ := Std.le_antisymm (Std.not_lt.1 h₂) (Std.not_lt.1 h₁)
        by_cases h : k' == k <;> simp [List.lookup_cons, h]

/-- Inserting changes the value under one key only. -/
theorem get?_insert (t : Table κ α) (k k' : κ) (x : α) :
    (t.insert k x).get? k' = if k' == k then some x else t.get? k' :=
  lookup_insertEntry k k' x t.entries

theorem get?_insert_self (t : Table κ α) (k : κ) (x : α) : (t.insert k x).get? k = some x := by
  simp [get?_insert]

theorem contains_insert (t : Table κ α) (k k' : κ) (x : α) :
    (t.insert k x).contains k' = (k' == k || t.contains k') := by
  by_cases h : k' == k <;> simp [contains, get?_insert, h]

/-- Of several entries under one key the last is found, and before them what was there. -/
theorem get?_foldl_insert (l : List (κ × α)) (t : Table κ α) (k : κ) :
    (l.foldl (fun t e => t.insert e.1 e.2) t).get? k = (l.reverse.lookup k).or (t.get? k) := by
  induction l generalizing t with
  | nil => rfl
  | cons e rest ih =>
    rw [List.foldl_cons, ih, get?_insert, List.reverse_cons, List.lookup_append, Option.or_assoc]
    congr 1
    obtain ⟨k', x⟩ := e
    cases h : k == k' <;> simp [List.lookup_cons, h]

/-- The table of entries with distinct keys holds exactly these. -/
theorem get?_ofList {l : List (κ × α)} (distinct : (l.map (·.1)).Nodup) {k : κ} {x : α} :
    (ofList l).get? k = some x ↔ (k, x) ∈ l := by
  have hreverse : (l.reverse.map (·.1)).Nodup := by
    rw [List.map_reverse, List.Nodup, List.pairwise_reverse]
    exact distinct.imp Ne.symm
  rw [ofList, get?_foldl_insert, get?_empty, Option.or_none, lookup_eq_some_iff_mem hreverse,
    List.mem_reverse]

end Lookup

/-- Two tables with the same entries are the same. -/
theorem ext {s t : Table κ α} (h : s.entries = t.entries) : s = t := by
  cases s
  cases t
  cases h
  rfl

section Extensional

variable [LE κ] [Std.LawfulOrderLT κ] [Std.IsLinearOrder κ] [BEq κ] [LawfulBEq κ]

/-- Two tables with the same look-ups are the same. -/
theorem ext_get? {s t : Table κ α} (h : ∀ k, s.get? k = t.get? k) : s = t := by
  have hmem : ∀ e, e ∈ s.entries ↔ e ∈ t.entries := fun e => by
    rw [← get?_eq_some_iff, ← get?_eq_some_iff, h]
  have hperm : s.entries.Perm t.entries :=
    (List.perm_ext_iff_of_nodup s.entries_nodup t.entries_nodup).2 hmem
  refine ext (hperm.eq_of_pairwise ?_ s.ascending t.ascending)
  intro a b _ _ hab hba
  exact absurd (Std.lt_trans hab hba) Std.lt_irrefl

/-- The order of entries with distinct keys does not matter. -/
theorem ofList_perm [DecidableLT κ] {l l' : List (κ × α)} (perm : l.Perm l')
    (distinct : (l.map (·.1)).Nodup) : ofList l = ofList l' := by
  have distinct' : (l'.map (·.1)).Nodup := (perm.map _).nodup_iff.1 distinct
  refine ext_get? fun k => Option.ext fun x => ?_
  rw [get?_ofList distinct, get?_ofList distinct', perm.mem_iff]

end Extensional

section Rebuild

variable [LE κ] [Std.LawfulOrderLT κ] [Std.IsLinearOrder κ] [DecidableLT κ]

theorem insertEntry_of_forall_lt {k : κ} {x : α} {l : List (κ × α)} (h : ∀ e ∈ l, e.1 < k) :
    insertEntry k x l = l ++ [(k, x)] := by
  induction l with
  | nil => rfl
  | cons head rest ih =>
    have hhead := h head List.mem_cons_self
    have hnot : ¬ k < head.1 := fun hlt => Std.lt_irrefl (Std.lt_trans hlt hhead)
    have hrest := ih fun e he => h e (List.mem_cons_of_mem _ he)
    simp only [insertEntry, if_neg hnot, if_pos hhead, hrest, List.cons_append]

/-- Entries that come in ascending order behind those of a table are appended to it. -/
theorem entries_foldl_insert (t : Table κ α) (l : List (κ × α))
    (h : (t.entries ++ l).Pairwise (fun a b => a.1 < b.1)) :
    (l.foldl (fun t e => t.insert e.1 e.2) t).entries = t.entries ++ l := by
  induction l generalizing t with
  | nil => simp
  | cons e rest ih =>
    have hlt : ∀ e' ∈ t.entries, e'.1 < e.1 := fun e' he' =>
      (List.pairwise_append.1 h).2.2 e' he' e List.mem_cons_self
    have hinsert : (t.insert e.1 e.2).entries = t.entries ++ [e] :=
      insertEntry_of_forall_lt hlt
    rw [List.foldl_cons, ih _ (by rw [hinsert]; simpa using h), hinsert]
    simp

theorem entries_ofList {l : List (κ × α)} (h : l.Pairwise (fun a b => a.1 < b.1)) :
    (ofList l).entries = l := by
  rw [ofList, entries_foldl_insert _ _ (by simpa [empty] using h)]
  rfl

/-- A table is rebuilt from its entries. -/
theorem ofList_entries (t : Table κ α) : ofList t.entries = t :=
  ext (entries_ofList t.ascending)

end Rebuild

end Table

end Federation
