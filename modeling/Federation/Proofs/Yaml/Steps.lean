import Federation.Proofs.Yaml.Blocks

/-!
# Steps of the scanner

Between two tokens the scanner stands before a text, with the tokens it has read and the columns of
the collections that are open. How it came there does not matter: gaps are passed over, a key that
can no longer end is forgotten and collections that are left are closed before the next token.
-/

namespace Federation.Yaml

variable {c : Char} {cs rest : List Char} {p q : Spot}

namespace Scan

/-! ### Runs -/

/-- With as many steps as there are characters the scanner reads these tokens. -/
def Yields (s : Scan) (ts : List Token) : Prop :=
  ∀ fuel, s.glyphs.length < fuel → run? fuel s = some ts

theorem Yields.of_step {s s' : Scan} {ts : List Token} (h : s'.Yields ts)
    (step : s.step? = some (s', false)) (shorter : s'.glyphs.length < s.glyphs.length) :
    s.Yields ts := by
  intro fuel hfuel
  cases fuel with
  | zero => omega
  | succ fuel =>
    rw [run?, step]
    exact h fuel (by omega)

theorem Yields.of_step_eq {s s' : Scan} {ts : List Token} (h : s'.Yields ts)
    (step : s.step? = s'.step?) (noLonger : s'.glyphs.length ≤ s.glyphs.length) : s.Yields ts := by
  intro fuel hfuel
  have hrun := h fuel (by omega)
  cases fuel with
  | zero => omega
  | succ fuel =>
    rw [run?] at hrun ⊢
    rw [step]
    exact hrun

theorem yields_of_end {s s' : Scan} (step : s.step? = some (s', true)) :
    s.Yields s'.tokens.toList := by
  intro fuel hfuel
  cases fuel with
  | zero => omega
  | succ fuel => rw [run?, step]

/-! ### Standing before a text -/

/-- The scanner before a text, outside flow collections and without a key that may have begun. -/
def before (p : Spot) (text : List Char) (ts : List Token) (columns : List Nat) (allowed : Bool) :
    Scan where
  glyphs := placed p text
  tokens := ts.toArray
  columns := columns
  keyAllowed := allowed

/-- A key that may have begun, but can no longer end on a line. -/
def Idle (key : Option KeyStart) (line : Nat) : Prop :=
  ∀ k ∈ key, k.required = false ∧ k.line < line

variable {ts : List Token} {columns : List Nat} {allowed : Bool}

theorem skipGap_begins {flow : Bool} (hrest : Printable rest) (hbegin : Begins rest) :
    skipGap flow false allowed (placed p rest) = (allowed, placed p rest) := by
  cases rest with
  | nil => rfl
  | cons c rest =>
    have hc := hrest c List.mem_cons_self
    obtain ⟨hspace, hbreak, hcomment⟩ := hbegin c rfl
    have hblank : c ≠ ' ' := of_decide_eq_false hspace
    have htab : c ≠ '\t' := ne_of_isPrintable hc (by decide)
    have hmark : c ≠ byteOrderMark := ne_of_isPrintable hc (by decide)
    rw [placed_cons hc, skipGap]
    simp [isBreak_of_isPrintable hc, hbreak, isEnd_of_isPrintable hc, hblank, htab, hmark, hcomment]

theorem skipGap_space : skipGap false false allowed (placed p (' ' :: rest)) =
    skipGap false false allowed (placed (p.next ' ') rest) := by
  rw [placed_cons (by decide), skipGap]
  rfl

theorem skipGap_break (hc : isPrintable c = true) (hbreak : breaksLine c = true) :
    skipGap false false allowed (placed p (c :: rest)) =
      skipGap false false true (placed (p.next c) rest) := by
  rw [placed_cons hc, skipGap]
  simp [isBreak_of_isPrintable hc, hbreak]

/-- After a line break and indentation a key may begin. -/
theorem skipGap_line (hrest : Printable rest) (hbegin : Begins rest) (k : Nat) :
    skipGap false false allowed (placed p ('\n' :: indentation k ++ rest)) =
      (true, placed (p.past ('\n' :: indentation k)) rest) := by
  rw [List.cons_append, skipGap_break (by decide) (by decide),
    pass_indentation (skipGap false false true) (fun _ _ => skipGap_space),
    skipGap_begins hrest hbegin, Spot.past_cons]

theorem exists_placed (hrest : Printable rest) :
    ∃ g gs, placed p rest = g :: gs ∧ g.line = p.line := by
  cases rest with
  | nil => exact ⟨_, _, placed_nil, rfl⟩
  | cons c rest => exact ⟨_, _, placed_cons (hrest c List.mem_cons_self), rfl⟩

theorem forgetStale?_idle {s : Scan} {key : Option KeyStart} {g : Glyph} (hkeys : s.keys = [key])
    (hidle : Idle key g.line) : s.forgetStale? g = some { s with keys := [none] } := by
  cases key with
  | none =>
    rw [forgetStale?, hkeys]
    rfl
  | some k =>
    -- a required key that cannot end any more would be an error here
    obtain ⟨hrequired, hline⟩ := hidle k rfl
    have hstale : k.isStale g = true := by
      rw [KeyStart.isStale, decide_eq_true hline]
      rfl
    rw [forgetStale?, hkeys]
    simp [hstale, hrequired]

/-- Where the scanner stands after a gap is all that the next step depends on. -/
theorem step?_eq {s : Scan} {key : Option KeyStart} (hkeys : s.keys = [key])
    (htokens : s.tokens = ts.toArray) (hcolumns : s.columns = columns)
    (hskip : skipGap false false s.keyAllowed s.glyphs = (allowed, placed p rest))
    (hrest : Printable rest) (hbegin : Begins rest) (hidle : Idle key p.line) :
    s.step? = (before p rest ts columns allowed).step? := by
  obtain ⟨g, gs, hplaced, hline⟩ := exists_placed (p := p) hrest
  have hskip' : skipGap false false allowed (placed p rest) = (allowed, placed p rest) :=
    skipGap_begins hrest hbegin
  rw [hplaced] at hskip hskip'
  obtain ⟨glyphs, tokens, columns', keys, keyAllowed⟩ := s
  simp only at hkeys htokens hcolumns hskip
  subst hkeys htokens hcolumns
  have hstale := forgetStale?_idle (s := ⟨g :: gs, ts.toArray, columns', [key], allowed⟩) rfl
    (hline ▸ hidle)
  have hstale' : forgetStale? ⟨g :: gs, ts.toArray, columns', [none], allowed⟩ g =
      some ⟨g :: gs, ts.toArray, columns', [none], allowed⟩ := rfl
  simp only [step?, before, inFlow, List.length_singleton, lt_irrefl, decide_false, hplaced, hskip,
    hskip', hstale, hstale']

theorem step?_before_eq {text : List Char} {allowed' : Bool}
    (hskip : skipGap false false allowed (placed q text) = (allowed', placed p rest))
    (hrest : Printable rest) (hbegin : Begins rest) :
    (before q text ts columns allowed).step? = (before p rest ts columns allowed').step? :=
  @step?_eq rest p ts columns allowed' _ none rfl rfl rfl hskip hrest hbegin fun _ hk => nomatch hk

theorem unroll_of_head {s : Scan} {column : Nat} (h : ∀ k ∈ s.columns.head?, k ≤ column) :
    s.unroll column = s := by
  have hclosed : s.columns.takeWhile (fun (k : Nat) => (column : Int) < (k : Int)) = [] := by
    cases hs : s.columns with
    | nil => rfl
    | cons k columns =>
      rw [hs] at h
      have := h k rfl
      rw [List.takeWhile_cons_of_neg]
      simp only [decide_eq_true_eq]
      omega
  rw [unroll, hclosed]
  simp

/-- Where there is nothing to pass over, to forget or to close, the next step takes a token. -/
theorem step?_of_settled {s : Scan} {g : Glyph} {gs : List Glyph} (hglyphs : s.glyphs = g :: gs)
    (hskip : skipGap s.inFlow false s.keyAllowed s.glyphs = (s.keyAllowed, s.glyphs))
    (hend : isEnd g.char = false) (hstale : s.forgetStale? g = some s)
    (hopen : s.unroll g.column = s) : s.step? = (s.token? g).map (·, false) := by
  obtain ⟨glyphs, tokens, columns', keys, keyAllowed⟩ := s
  simp only at hglyphs
  subst hglyphs
  simp only [step?, hskip]
  simp only [Option.bind_eq_bind, hstale, Option.bind_some, hend, hopen, Option.map_eq_bind]
  rfl

/-- The next token is what begins here, if no collection has been left. -/
theorem step?_token {s : Scan} {key : Option KeyStart} (hkeys : s.keys = [key])
    (hglyphs : s.glyphs = placed p (c :: rest)) (hprint : Printable (c :: rest))
    (hbegin : Begins (c :: rest))
    (fresh : ∀ k ∈ key, k.isStale ⟨c, p.index, p.line, p.column⟩ = false)
    (hopen : ∀ k ∈ s.columns.head?, k ≤ p.column) :
    s.step? = (s.token? ⟨c, p.index, p.line, p.column⟩).map (·, false) := by
  have hc := hprint c List.mem_cons_self
  have hskip : skipGap s.inFlow false s.keyAllowed s.glyphs = (s.keyAllowed, s.glyphs) := by
    rw [hglyphs]
    exact skipGap_begins hprint hbegin
  have hstale : s.forgetStale? ⟨c, p.index, p.line, p.column⟩ = some s := by
    obtain ⟨glyphs, tokens, columns', keys, keyAllowed⟩ := s
    simp only at hkeys
    subst hkeys
    cases key with
    | none => rfl
    | some k => simp [forgetStale?, fresh k rfl]
  exact step?_of_settled (hglyphs.trans (placed_cons hc)) hskip (isEnd_of_isPrintable hc) hstale
    (unroll_of_head hopen)

theorem step?_before (hprint : Printable (c :: rest)) (hbegin : Begins (c :: rest))
    (hopen : ∀ k ∈ columns.head?, k ≤ p.column) :
    (before p (c :: rest) ts columns allowed).step? =
      ((before p (c :: rest) ts columns allowed).token? ⟨c, p.index, p.line, p.column⟩).map
        (·, false) :=
  @step?_token c rest p _ none rfl rfl hprint hbegin (fun _ hk => nomatch hk) hopen

theorem unroll_before {k : Nat} {column : Int} (h : column < k) :
    (before p rest ts (k :: columns) allowed).unroll column =
      (before p rest (ts ++ [.blockEnd]) columns allowed).unroll column := by
  simp only [unroll, before, inFlow, List.length_singleton, lt_irrefl, decide_false,
    Bool.false_eq_true, if_false]
  rw [List.takeWhile_cons_of_pos (by simpa using h)]
  simp

/-- A collection that is left is closed before the next token. -/
theorem step?_close {k : Nat} (hrest : Printable rest) (hbegin : Begins rest)
    (h : rest = [] ∨ p.column < k) :
    (before p rest ts (k :: columns) allowed).step? =
      (before p rest (ts ++ [.blockEnd]) columns allowed).step? := by
  cases rest with
  | nil =>
    have hstep : ∀ ts columns, (before p [] ts columns allowed).step? = (do
        let s ← (before p [] ts columns allowed).border?
        some (s, true)) := fun _ _ => rfl
    rw [hstep, hstep, border?, border?, unroll_before (by omega)]
  | cons c rest =>
    have hc := hrest c List.mem_cons_self
    have hskip : skipGap false false allowed (placed p (c :: rest)) =
        (allowed, placed p (c :: rest)) := skipGap_begins hrest hbegin
    have hcolumn := h.resolve_left (List.cons_ne_nil _ _)
    have hstep : ∀ ts columns, (before p (c :: rest) ts columns allowed).step? = (do
        let s ← ((before p (c :: rest) ts columns allowed).unroll p.column).token?
          ⟨c, p.index, p.line, p.column⟩
        some (s, false)) := by
      intro ts columns
      rw [placed_cons hc] at hskip
      simp only [step?, before, inFlow, List.length_singleton, lt_irrefl, decide_false,
        placed_cons hc, hskip]
      simp [forgetStale?, isEnd_of_isPrintable hc]
    rw [hstep, hstep, unroll_before (by omega)]

theorem yields_before_nil : (before p [] ts [] allowed).Yields ts := by
  have hstep : (before p [] ts [] allowed).step? = some (before p [] ts [] false, true) := rfl
  have hyields := yields_of_end hstep
  rwa [before, List.toList_toArray] at hyields

end Scan

end Federation.Yaml
