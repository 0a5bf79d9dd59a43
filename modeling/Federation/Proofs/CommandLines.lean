import Federation.CommandLine.Run

/-!
# Writing command lines

The values of a command keep their order, and the flag stands at one place among them. Every list of
values can be written, since after `--` no word is a flag.
-/

namespace Federation

namespace Command

/-- How values, and the flag if it is set, are written as words. -/
inductive Spells : List String → List String → Bool → Prop where
  | done : Spells [] [] false
  | rest (values : List String) : Spells ("--" :: values) values false
  | flag {args values : List String} (others : Spells args values false) :
      Spells ("--json" :: args) values true
  | value {word : String} {args values : List String} {json : Bool} (plain : isFlag word = false)
      (others : Spells args values json) : Spells (word :: args) (word :: values) json

theorem isFlag_dashes : isFlag "--" = true := by
  decide +kernel

theorem isFlag_json : isFlag "--json" = true := by
  decide +kernel

theorem words?_cons_value {word : String} (plain : isFlag word = false) (args : List String) :
    words? (word :: args) = (words? args).map fun ws =>
      { ws with values := word :: ws.values } := by
  have not_dashes : word ≠ "--" := by
    rintro rfl
    rw [isFlag_dashes] at plain
    cases plain
  have not_json : word ≠ "--json" := by
    rintro rfl
    rw [isFlag_json] at plain
    cases plain
  rw [words?, if_neg not_dashes]
  simp only [not_json, plain, if_false, Bool.false_eq_true]
  cases words? args with
  | none => rfl
  | some ws => rfl

theorem words?_cons_flag (args : List String) :
    words? ("--json" :: args) = (words? args).bind fun ws =>
      if ws.json then none else some { ws with json := true } := by
  rfl

theorem words?_of_spells {args values : List String} {json : Bool} (h : Spells args values json) :
    words? args = some ⟨values, json⟩ := by
  induction h with
  | done => rfl
  | rest values => rfl
  | flag others ih =>
    rw [words?_cons_flag, ih]
    rfl
  | value plain others ih =>
    rw [words?_cons_value plain, ih]
    rfl

theorem spells_of_words? {args : List String} {ws : Words} (h : words? args = some ws) :
    Spells args ws.values ws.json := by
  induction args generalizing ws with
  | nil =>
    cases h
    exact .done
  | cons word args ih =>
    -- the first word decides which rule the words were written by
    by_cases dashes : word = "--"
    · subst dashes
      cases h
      exact .rest args
    by_cases flag : word = "--json"
    · subst flag
      rw [words?_cons_flag] at h
      obtain ⟨⟨values, set⟩, hothers, h⟩ := Option.bind_eq_some_iff.1 h
      cases set with
      | true => cases h
      | false =>
        cases h
        exact .flag (ih hothers)
    cases plain : isFlag word with
    | true => simp [words?, dashes, flag, plain] at h
    | false =>
      rw [words?_cons_value plain] at h
      obtain ⟨others, hothers, rfl⟩ := Option.map_eq_some_iff.1 h
      exact .value plain (ih hothers)

/-- The words of a command line are set apart exactly as they are written. -/
theorem words?_eq_some_iff {args values : List String} {json : Bool} :
    words? args = some ⟨values, json⟩ ↔ Spells args values json :=
  ⟨spells_of_words?, words?_of_spells⟩

theorem ofArgs?_path {args : List String} {file source target : String} {json : Bool}
    (h : Spells args [file, source, target] json) (named : file ≠ "") :
    ofArgs? ("path" :: args) = some (.path file source target json) := by
  rw [ofArgs?, words?_eq_some_iff.2 h]
  exact if_neg named

theorem ofArgs?_validate {args : List String} {file : String} (h : Spells args [file] false)
    (named : file ≠ "") : ofArgs? ("validate" :: args) = some (.validate file) := by
  rw [ofArgs?, words?_eq_some_iff.2 h]
  exact if_neg named

theorem ofArgs?_validate_nameless {args : List String} (h : Spells args [""] false) :
    ofArgs? ("validate" :: args) = none := by
  rw [ofArgs?, words?_eq_some_iff.2 h]
  rfl

theorem lines_singleton (l : String) : lines [l] = l ++ "\n" := by
  simp [lines, String.join]

/-- The first character of the line on a path is the verdict. -/
theorem head?_pathLine (r : PathResult) :
    (lines [pathLine r]).toList.head? = some (if r.reachable then '✓' else '✗') := by
  rw [lines_singleton, pathLine]
  cases r.reachable with
  | false => simp
  | true => simp

end Command

theorem RunOutcome.exitCode_eq_zero_iff {o : RunOutcome} : o.exitCode = 0 ↔ o.failure = none := by
  obtain ⟨output, failure⟩ := o
  cases failure with
  | none => exact ⟨fun _ => rfl, fun _ => rfl⟩
  | some failure =>
    constructor
    · intro h
      cases failure <;> cases h
    · intro h
      cases h

end Federation
