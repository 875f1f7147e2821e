import PageScript.Proofs.Fold.Meaning
import PageScript.Proofs.Value.Arithmetic

/-! Where folding and running apply the same operator. Folding compares its
constants. A running script has no comparisons: it takes the left operand of an
equality for its value, and gives nothing for the others. Main statement: the
two agree on all other operators, and on a comparison only by chance. -/
namespace PageScript.Fold

open Run

/-- A comparison is true, false or a fault, whatever is compared. -/
theorem comparison_ne_none (operator : String) (holds : Ordering → Bool) (a b : Value) :
    Value.comparison operator holds a b ≠ .ok .none := by
  intro h
  obtain ⟨truth, hTruth⟩ := exists_of_comparison a b h
  cases hTruth

/-- A comparison of constants never comes to nothing: there is a value or a
fault. -/
theorem constant_ne_none {operator : String} (h : operator ∈ comparisons) (a b : Value) :
    constant operator a b ≠ .ok .none := by
  simp only [comparisons, List.mem_cons, List.not_mem_nil, or_false] at h
  obtain rfl | rfl | rfl | rfl | rfl | rfl := h
  · intro hNone
    cases hNone
  · intro hNone
    cases hNone
  · exact comparison_ne_none "<" _ a b
  · exact comparison_ne_none ">" _ a b
  · exact comparison_ne_none "<=" _ a b
  · exact comparison_ne_none ">=" _ a b

/-- What a running script makes of a comparison. -/
theorem operate_comparison {operator : String} (h : operator ∈ comparisons) (a b : Value) :
    operate operator a b = .ok (if operator = "==" then a else .none) := by
  simp only [comparisons, List.mem_cons, List.not_mem_nil, or_false] at h
  obtain rfl | rfl | rfl | rfl | rfl | rfl := h <;> rfl

/-- A running script and folding give the same value, or the same fault, for an
operation on two constants exactly if the operator is no comparison, or if it
is an equality and the constant on the left happens to be the truth value of
that equality. -/
theorem evaluate_eq_constant_iff (frames : List Frame) (operator : String) (l r : Value) :
    evaluate frames (.binary (.number l) operator (.number r)) =
      (constant operator l r).mapError Fault.arithmetic ↔
      operator ∉ comparisons ∨ operator = "==" ∧ l = .bool (l.same r) := by
  change operate operator l r = _ ↔ _
  by_cases hComparison : operator ∈ comparisons
  · rw [operate_comparison hComparison]
    by_cases hEqual : operator = "=="
    · subst hEqual
      have hConstant : (constant "==" l r).mapError Fault.arithmetic = .ok (.bool (l.same r)) := rfl
      simp [hConstant, hComparison]
    · have hNone := constant_ne_none hComparison l r
      have hNe : (constant operator l r).mapError Fault.arithmetic ≠ .ok .none := by
        intro hSame
        cases hConstant : constant operator l r with
        | error cause =>
            rw [hConstant] at hSame
            cases hSame
        | ok value =>
            rw [hConstant] at hSame
            cases hSame
            exact hNone hConstant
      simp [hComparison, hEqual, hNe.symm]
  · exact iff_of_true (operate_eq_constant hComparison l r) (.inl hComparison)

/-- Folding finds that one is less than two and that one is not two. A running
script gives nothing for the first and one for the second. -/
theorem evaluate_ne_constant_small :
    (Fold.constant "<" (.int 1) (.int 2) = .ok (.bool true) ∧
      evaluate [.empty] (.binary (.number (.int 1)) "<" (.number (.int 2))) = .ok .none) ∧
    (Fold.constant "==" (.int 1) (.int 2) = .ok (.bool false) ∧
      evaluate [.empty] (.binary (.number (.int 1)) "==" (.number (.int 2))) = .ok (.int 1)) :=
  ⟨⟨rfl, rfl⟩, rfl, rfl⟩

end PageScript.Fold
