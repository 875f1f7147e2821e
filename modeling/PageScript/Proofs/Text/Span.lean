/-! Runs at the front of a list: where a run ends, it is cut off as it is. -/
namespace PageScript

variable {α : Type} {p : α → Bool}

/-- The list does not go on with what the condition allows. -/
def Stops (p : α → Bool) (rest : List α) : Prop :=
  ∀ x ∈ rest.head?, p x = false

theorem stops_nil : Stops p [] := by
  rintro _ ⟨⟩

theorem stops_cons {x : α} (h : p x = false) (rest : List α) : Stops p (x :: rest) := by
  rintro _ ⟨⟩
  exact h

/-- Where a run cannot begin, none is taken. -/
theorem takeWhile_of_stops {rest : List α} (h : Stops p rest) : rest.takeWhile p = [] := by
  cases rest with
  | nil => rfl
  | cons x rest => simp [h x rfl]

/-- Where a run cannot begin, nothing is dropped. -/
theorem dropWhile_of_stops {rest : List α} (h : Stops p rest) : rest.dropWhile p = rest := by
  cases rest with
  | nil => rfl
  | cons x rest => simp [h x rfl]

/-- A run that stops is taken whole, and nothing else is. -/
theorem takeWhile_run {run rest : List α} (hRun : ∀ x ∈ run, p x = true)
    (hRest : Stops p rest) :
    (run ++ rest).takeWhile p = run := by
  rw [List.takeWhile_append_of_pos hRun, takeWhile_of_stops hRest, List.append_nil]

/-- A run that stops is dropped whole, and nothing else is. -/
theorem dropWhile_run {run rest : List α} (hRun : ∀ x ∈ run, p x = true)
    (hRest : Stops p rest) :
    (run ++ rest).dropWhile p = rest := by
  rw [List.dropWhile_append_of_pos hRun, dropWhile_of_stops hRest]

/-- Behind a run that was dropped, it cannot go on. -/
theorem stops_dropWhile (text : List α) : Stops p (text.dropWhile p) := by
  have hHead := List.head?_dropWhile_not p text
  intro x hx
  rw [hx] at hHead
  exact hHead

/-- A run at the front of a text is no longer than what the condition takes
from it. -/
theorem length_le_takeWhile {run text : List α} (hRun : ∀ x ∈ run, p x = true)
    (h : run <+: text) :
    run.length ≤ (text.takeWhile p).length := by
  obtain ⟨rest, rfl⟩ := h
  rw [List.takeWhile_append_of_pos hRun, List.length_append]
  exact Nat.le_add_right _ _

end PageScript
