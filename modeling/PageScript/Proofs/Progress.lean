import PageScript.Progress

/-! Production in several steps: when a sequence of steps completes and what it
has produced then, and which fault ends it otherwise. -/
namespace PageScript.Progress

variable {α β : Type} {first : Progress α} {next : Unit → Progress α} {xs : List α}

/-- A step that makes one thing has produced just that. -/
@[simp] theorem one_eq_iff {x : α} : one x = ⟨xs, none⟩ ↔ xs = [x] := by
  simp [one, eq_comm]

@[simp] theorem nothing_eq_iff : (nothing : Progress α) = ⟨xs, none⟩ ↔ xs = [] := by
  simp [nothing, eq_comm]

/-- A step that has failed has not completed. -/
@[simp] theorem failed_ne {fault : Fault} : (failed fault : Progress α) ≠ ⟨xs, none⟩ := by
  simp [failed]

/-- After a step that has completed, the next one adds to what it has produced
and has the last word on the fault. -/
@[simp] theorem mk_andThen : (⟨xs, none⟩ : Progress α).andThen next =
    ⟨xs ++ (next ()).produced, (next ()).fault⟩ :=
  rfl

/-- A sequence completes exactly if both of its parts do. -/
theorem andThen_eq_iff : first.andThen next = ⟨xs, none⟩ ↔
    ∃ ys zs, first = ⟨ys, none⟩ ∧ next () = ⟨zs, none⟩ ∧ xs = ys ++ zs := by
  obtain ⟨produced, fault⟩ := first
  cases fault with
  | some fault => simp [andThen]
  | none =>
      simp only [andThen, mk.injEq]
      constructor
      · rintro ⟨rfl, hFault⟩
        refine ⟨produced, (next ()).produced, ⟨rfl, trivial⟩, ?_, rfl⟩
        rw [← hFault]
      · rintro ⟨ys, zs, ⟨rfl, -⟩, hNext, rfl⟩
        rw [hNext]
        exact ⟨rfl, rfl⟩

/-- A step that needs a result completes exactly if there is a result, and the
step that is taken with it completes. -/
theorem withResult_eq_iff {result : Except Fault β} {next : β → Progress α} :
    withResult result next = ⟨xs, none⟩ ↔ ∃ b, result = .ok b ∧
      next b = ⟨xs, none⟩ := by
  cases result with
  | ok b => simp [withResult]
  | error fault => simp [withResult]

/-- A sequence ends with the first fault of its parts. -/
@[simp] theorem fault_andThen : (first.andThen next).fault = first.fault.or (next ()).fault := by
  obtain ⟨produced, fault⟩ := first
  cases fault <;> rfl

@[simp] theorem fault_one (x : α) : (one x).fault = none :=
  rfl

@[simp] theorem fault_nothing : (nothing : Progress α).fault = none :=
  rfl

/-- A production without a fault has completed. -/
theorem eq_of_fault {p : Progress α} (h : p.fault = none) : p = ⟨p.produced, none⟩ := by
  rw [← h]

end PageScript.Progress
