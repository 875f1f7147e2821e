/-! Computations that can fail, one after the other: when a sequence of two
ends well, and when it does not, and what a fault was before it was put in
other words. -/
namespace PageScript

variable {ε α β : Type} {first : Except ε α} {next : α → Except ε β}

/-- After a computation that ends well, the next one goes on with its
result. -/
@[simp] theorem ok_bind (a : α) (next : α → Except ε β) : (Except.ok a >>= next) = next a :=
  rfl

theorem pure_eq_ok (a : α) : (pure a : Except ε α) = .ok a :=
  rfl

theorem throw_eq_error (e : ε) : (throw e : Except ε α) = .error e :=
  rfl

/-- A sequence of two ends well exactly if the first does and the second, given
the result of the first, does. -/
theorem bind_eq_ok_iff {result : β} :
    (first >>= next) = .ok result ↔ ∃ a, first = .ok a ∧ next a = .ok result := by
  constructor
  · intro h
    cases first with
    | error e => cases h
    | ok a => exact ⟨a, rfl, h⟩
  · rintro ⟨a, rfl, h⟩
    exact h

/-- A sequence of two fails exactly if the first does, or ends well and makes
the second fail. -/
theorem bind_eq_error_iff {e : ε} :
    (first >>= next) = .error e ↔ first = .error e ∨ ∃ a, first = .ok a ∧
      next a = .error e := by
  constructor
  · intro h
    cases first with
    | error e' =>
        cases h
        exact .inl rfl
    | ok a => exact .inr ⟨a, rfl, h⟩
  · rintro (rfl | ⟨a, rfl, h⟩)
    · rfl
    · exact h

/-- Putting faults in other words does not change what ends well. -/
theorem mapError_eq_ok {δ : Type} {f : ε → δ} {a : α} (h : first.mapError f = .ok a) :
    first = .ok a := by
  cases first with
  | ok result =>
      cases h
      rfl
  | error cause => cases h

/-- A fault that was put in other words was another fault before. -/
theorem mapError_eq_error {δ : Type} {f : ε → δ} {e : δ} (h : first.mapError f = .error e) :
    ∃ cause, first = .error cause ∧ e = f cause := by
  cases first with
  | ok a => cases h
  | error cause =>
      cases h
      exact ⟨cause, rfl, rfl⟩

end PageScript
