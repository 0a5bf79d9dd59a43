/-!
# Computations that may fail

What a computation that succeeded says of its steps.
-/

namespace Federation.Outcome

variable {ε ε' α β : Type}

theorem bind_eq_ok_iff {x : Except ε α} {f : α → Except ε β} {b : β} :
    (x >>= f) = .ok b ↔ ∃ a, x = .ok a ∧ f a = .ok b := by
  cases x with
  | error e =>
    constructor
    · intro h
      cases h
    · rintro ⟨_, h, _⟩
      cases h
  | ok a =>
    constructor
    · exact fun h => ⟨a, rfl, h⟩
    · rintro ⟨_, h, hf⟩
      cases h
      exact hf

theorem map_eq_ok_iff {x : Except ε α} {f : α → β} {b : β} :
    f <$> x = .ok b ↔ ∃ a, x = .ok a ∧ f a = b := by
  cases x with
  | error e =>
    constructor
    · intro h
      cases h
    · rintro ⟨_, h, _⟩
      cases h
  | ok a =>
    constructor
    · intro h
      exact ⟨a, rfl, Except.ok.inj h⟩
    · rintro ⟨_, h, rfl⟩
      cases h
      rfl

theorem mapError_eq_ok_iff {x : Except ε α} {f : ε → ε'} {a : α} :
    x.mapError f = .ok a ↔ x = .ok a := by
  cases x with
  | error e =>
    constructor
    · intro h
      cases h
    · intro h
      cases h
  | ok a =>
    constructor
    · intro h
      cases h
      rfl
    · intro h
      cases h
      rfl

theorem mapError_eq_error_iff {x : Except ε α} {f : ε → ε'} {e : ε'} :
    x.mapError f = .error e ↔ ∃ cause, x = .error cause ∧ f cause = e := by
  cases x with
  | error cause =>
    constructor
    · intro h
      exact ⟨cause, rfl, Except.error.inj h⟩
    · rintro ⟨_, h, rfl⟩
      cases h
      rfl
  | ok a =>
    constructor
    · intro h
      cases h
    · rintro ⟨_, h, _⟩
      cases h

theorem bind_eq_error_iff {x : Except ε α} {f : α → Except ε β} {e : ε} :
    (x >>= f) = .error e ↔ x = .error e ∨ ∃ a, x = .ok a ∧ f a = .error e := by
  cases x with
  | error e =>
    constructor
    · intro h
      cases h
      exact Or.inl rfl
    · rintro (h | ⟨_, h, _⟩)
      · cases h
        rfl
      · cases h
  | ok a =>
    constructor
    · exact fun h => Or.inr ⟨a, rfl, h⟩
    · rintro (h | ⟨_, h, hf⟩)
      · cases h
      · cases h
        exact hf

theorem toOption_eq_some_iff {x : Except ε α} {a : α} : x.toOption = some a ↔ x = .ok a := by
  cases x with
  | error e =>
    constructor
    · intro h
      cases h
    · intro h
      cases h
  | ok b =>
    constructor
    · intro h
      exact congrArg _ (Option.some.inj h)
    · intro h
      exact congrArg _ (Except.ok.inj h)

/-- Of computations that are tried in turn the first one that fails decides the error. -/
theorem mapM_eq_error_iff {f : α → Except ε β} {l : List α} {e : ε} :
    l.mapM f = .error e ↔ ∃ before x after, l = before ++ x :: after ∧
      (∀ y ∈ before, ∃ b, f y = .ok b) ∧ f x = .error e := by
  induction l with
  | nil =>
    constructor
    · intro h
      cases h
    · rintro ⟨before, x, after, h, -⟩
      cases before <;> cases h
  | cons head rest ih =>
    rw [List.mapM_cons, bind_eq_error_iff]
    constructor
    · rintro (hhead | ⟨b, hhead, hrest⟩)
      · exact ⟨[], head, rest, rfl, List.forall_mem_nil _, hhead⟩
      · rcases bind_eq_error_iff.1 hrest with hrest | ⟨_, _, h⟩
        · obtain ⟨before, x, after, rfl, hbefore, hx⟩ := ih.1 hrest
          refine ⟨head :: before, x, after, rfl, ?_, hx⟩
          intro y hy
          rcases List.mem_cons.1 hy with rfl | hy
          · exact ⟨b, hhead⟩
          · exact hbefore y hy
        · cases h
    · rintro ⟨before, x, after, hsplit, hbefore, hx⟩
      cases before with
      | nil =>
        obtain ⟨rfl, rfl⟩ := List.cons.inj hsplit
        exact Or.inl hx
      | cons first more =>
        obtain ⟨rfl, rfl⟩ := List.cons.inj hsplit
        obtain ⟨b, hfirst⟩ := hbefore head List.mem_cons_self
        have hmore : ∀ y ∈ more, ∃ b, f y = .ok b :=
          fun y hy => hbefore y (List.mem_cons_of_mem _ hy)
        have hrest := ih.2 ⟨more, x, after, rfl, hmore, hx⟩
        exact Or.inr ⟨b, hfirst, bind_eq_error_iff.2 (Or.inl hrest)⟩

section Actions

variable {σ : Type} {x : Except ε α} {k : α → EStateM ε σ β} {s s' : σ}

theorem run_ofExcept_bind_eq_ok_iff {b : β} :
    (ofExcept x >>= k).run s = .ok b s' ↔ ∃ a, x = .ok a ∧ (k a).run s = .ok b s' := by
  cases x with
  | error e =>
    constructor
    · intro h
      cases h
    · rintro ⟨_, h, _⟩
      cases h
  | ok a =>
    constructor
    · exact fun h => ⟨a, rfl, h⟩
    · rintro ⟨_, h, hk⟩
      cases h
      exact hk

/-- An action that waits for an outcome has changed nothing where the outcome is a failure. -/
theorem run_ofExcept_bind_eq_error_iff {e : ε} :
    (ofExcept x >>= k).run s = .error e s' ↔
      x = .error e ∧ s = s' ∨ ∃ a, x = .ok a ∧ (k a).run s = .error e s' := by
  cases x with
  | error e' =>
    constructor
    · intro h
      cases h
      exact Or.inl ⟨rfl, rfl⟩
    · rintro (⟨h, rfl⟩ | ⟨_, h, _⟩)
      · cases h
        rfl
      · cases h
  | ok a =>
    constructor
    · exact fun h => Or.inr ⟨a, rfl, h⟩
    · rintro (⟨h, _⟩ | ⟨_, h, hk⟩)
      · cases h
      · cases h
        exact hk

end Actions

end Federation.Outcome
