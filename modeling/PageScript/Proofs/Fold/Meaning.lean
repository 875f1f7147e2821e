import PageScript.Fold
import PageScript.Proofs.Sequencing
import PageScript.Run.Machine

/-! Folding keeps the meaning of a program. A running script and a folded one
apply the same operators to numbers, comparisons apart, so an initial value
that was folded evaluates as before in every chain of frames, with its
faults. -/
namespace PageScript.Fold

open Run

/-- The operators that a script does not apply as folding does. -/
def comparisons : List String := ["==", "!=", "<", ">", "<=", ">="]

/-- The operators from the root of an expression down, as far as operations
reach. -/
def operators : Node → List String
  | .binary left operator right => operator :: (operators left ++ operators right)
  | _ => []

/-- The nodes that stand for values. -/
def isExpression : Node → Bool
  | .blankExpression => true
  | .binary _ _ _ => true
  | .unary _ _ => true
  | .number _ => true
  | .string _ => true
  | .bool _ => true
  | .identifier _ => true
  | .call _ _ => true
  | .member _ _ => true
  | .memberNode _ _ => true
  | _ => false

/-- No operator that folding reaches in these statements is a comparison. -/
def FreeOfComparisons (statements : List Node) : Prop :=
  ∀ name type value constant, Node.declaration name type value constant ∈ statements →
    ∀ operator ∈ operators value, operator ∉ comparisons

/-- A text that stands for one of these operators is spelled as one of them. -/
theorem mem_comparisons_of_ofText? {operator : String} {meaning : Operator}
    (h : Operator.ofText? operator = some meaning)
    (hMeaning : meaning ∈ [Operator.eq, .ne, .lt, .gt, .le, .ge]) : operator ∈ comparisons := by
  unfold Operator.ofText? at h
  split at h
  all_goals cases h
  all_goals first
    | exact absurd hMeaning (by decide)
    | decide

/-- Outside comparisons, a constant is what a running script computes. -/
theorem operate_eq_constant {operator : String} (h : operator ∉ comparisons) (a b : Value) :
    operate operator a b = (constant operator a b).mapError Fault.arithmetic := by
  cases hText : Operator.ofText? operator with
  | none =>
      unfold operate constant
      rw [hText]
      rfl
  | some meaning =>
      have hMeaning : meaning ∉ [Operator.eq, .ne, .lt, .gt, .le, .ge] :=
        fun hMem => h (mem_comparisons_of_ofText? hText hMem)
      unfold operate constant
      rw [hText]
      cases meaning <;> first
        | exact absurd (by decide) hMeaning
        | rfl

/-- Everything that folding a node can do. A program and a declaration keep
their form, an operation may become a number, and all else is left alone. -/
theorem fold_cases {n folded : Node} (h : fold n = .ok folded) :
    folded = n ∨
    (∃ statements others, n = .program statements ∧ foldAll statements = .ok others ∧
      folded = .program others) ∨
    (∃ name type value constant initial, n = .declaration name type value constant ∧
      fold value = .ok initial ∧ folded = .declaration name type initial constant) ∨
    (∃ left operator right foldedLeft foldedRight, n = .binary left operator right ∧
      fold left = .ok foldedLeft ∧ fold right = .ok foldedRight ∧
      operation foldedLeft operator foldedRight = .ok folded) := by
  cases n with
  | program statements =>
      rw [fold, bind_eq_ok_iff] at h
      obtain ⟨others, hAll, h⟩ := h
      cases h
      exact .inr (.inl ⟨statements, others, rfl, hAll, rfl⟩)
  | declaration name type value constant =>
      rw [fold, bind_eq_ok_iff] at h
      obtain ⟨initial, hValue, h⟩ := h
      cases h
      exact .inr (.inr (.inl ⟨name, type, value, constant, initial, rfl, hValue, rfl⟩))
  | binary left operator right =>
      simp only [fold, bind_eq_ok_iff] at h
      obtain ⟨foldedLeft, hLeft, foldedRight, hRight, h⟩ := h
      exact .inr (.inr (.inr ⟨left, operator, right, foldedLeft, foldedRight, rfl, hLeft,
        hRight, h⟩))
  | _ => exact .inl (by simpa [fold, eq_comm] using h)

/-- Whether a node is a number literal. -/
def isNumber : Node → Bool
  | .number _ => true
  | _ => false

/-- An operation on folded operands stands as it was, unless both operands are
numbers and their constant takes its place. -/
theorem operation_cases {left right folded : Node} {operator : String}
    (h : operation left operator right = .ok folded) :
    (∃ a b value, left = .number a ∧ right = .number b ∧ constant operator a b = .ok value ∧
      folded = .number value) ∨
    ((isNumber left && isNumber right) = false ∧ folded = .binary left operator right) := by
  unfold operation at h
  split at h
  · rename_i a b
    obtain ⟨value, hConstant, h⟩ := bind_eq_ok_iff.mp h
    cases h
    exact .inl ⟨a, b, value, rfl, rfl, mapError_eq_ok hConstant, rfl⟩
  · rename_i hOperands
    cases h
    refine .inr ⟨?_, rfl⟩
    cases left with
    | number a =>
        cases right with
        | number b => exact (hOperands a b rfl rfl).elim
        | _ => rfl
    | _ => rfl

/-- An operation on folded operands computes what it did. -/
theorem evaluate_operation {left right folded : Node} {operator : String}
    (h : operation left operator right = .ok folded) (hOperator : operator ∉ comparisons)
    (frames : List Frame) :
    evaluate frames folded = evaluate frames (.binary left operator right) := by
  obtain ⟨a, b, value, rfl, rfl, hConstant, rfl⟩ | ⟨-, rfl⟩ := operation_cases h
  · have hOperate : operate operator a b = .ok value := by
      rw [operate_eq_constant hOperator, hConstant]
      rfl
    exact hOperate.symm
  · rfl

/-- Folding an expression keeps its value in every chain of frames, and the
fault if it has none. The recursion follows the operations from the root down.
A program or a declaration has no value, folded or not. -/
theorem evaluate_fold (n : Node) {folded : Node} (h : fold n = .ok folded)
    (hOperators : ∀ operator ∈ operators n, operator ∉ comparisons) (frames : List Frame) :
    evaluate frames folded = evaluate frames n := by
  obtain rfl | ⟨_, _, rfl, -, rfl⟩ | ⟨_, _, _, _, _, rfl, -, rfl⟩ |
    ⟨left, operator, right, foldedLeft, foldedRight, rfl, hLeft, hRight, hOperation⟩ :=
    fold_cases h
  · rfl
  · rfl
  · rfl
  · simp only [operators, List.mem_cons, List.mem_append] at hOperators
    have hSameLeft := evaluate_fold left hLeft (fun o ho => hOperators o (.inr (.inl ho))) frames
    have hSameRight := evaluate_fold right hRight (fun o ho => hOperators o (.inr (.inr ho))) frames
    rw [evaluate_operation hOperation (hOperators operator (.inl rfl)), evaluate, evaluate,
      hSameLeft, hSameRight]
termination_by sizeOf n
decreasing_by all_goals subst_vars; simp only [Node.binary.sizeOf_spec]; omega

/-- Running a folded statement is running the statement. -/
theorem execute_fold {s folded : Node} (h : fold s = .ok folded)
    (hStatement : isExpression s = false) (hFree : FreeOfComparisons [s]) (rounds : Nat)
    (m : Machine) :
    execute rounds folded m = execute rounds s m := by
  obtain rfl | ⟨_, _, rfl, -, rfl⟩ |
      ⟨name, type, value, constant, initial, rfl, hValue, rfl⟩ |
    ⟨_, _, _, _, _, rfl, -⟩ := fold_cases h
  · rfl
  · rw [execute, execute] <;> simp [Node.kindName]
  · have hOperators := hFree name type value constant (List.mem_singleton.mpr rfl)
    rw [execute, execute, evaluate_fold value hValue hOperators]
  · cases hStatement

theorem foldAll_cons_inv {n : Node} {rest folded : List Node}
    (h : foldAll (n :: rest) = .ok folded) :
    ∃ first others, fold n = .ok first ∧ foldAll rest = .ok others ∧
      folded = first :: others := by
  simp only [foldAll, bind_eq_ok_iff] at h
  obtain ⟨first, hFirst, others, hOthers, h⟩ := h
  cases h
  exact ⟨first, others, hFirst, hOthers, rfl⟩

/-- Where folding meets no comparison in some statements, it meets none in the
first one and none in the others. -/
theorem FreeOfComparisons.of_cons {s : Node} {rest : List Node}
    (h : FreeOfComparisons (s :: rest)) :
    FreeOfComparisons [s] ∧ FreeOfComparisons rest := by
  constructor
  · intro name type value constant hMem
    exact h name type value constant (by simpa using Or.inl (List.mem_singleton.mp hMem))
  · intro name type value constant hMem
    exact h name type value constant (List.mem_cons_of_mem s hMem)

/-- Running folded statements one after the other. -/
theorem executeAll_foldAll {statements folded : List Node} (h : foldAll statements = .ok folded)
    (hStatements : ∀ s ∈ statements, isExpression s = false)
    (hFree : FreeOfComparisons statements) (rounds : Nat) (m : Machine) :
    executeAll rounds folded m = executeAll rounds statements m := by
  induction statements generalizing folded m with
  | nil =>
      cases h
      rfl
  | cons s rest ih =>
      obtain ⟨first, others, hFirst, hOthers, rfl⟩ := foldAll_cons_inv h
      obtain ⟨hFreeFirst, hFreeRest⟩ := hFree.of_cons
      have hSame := execute_fold hFirst (hStatements s (.head _)) hFreeFirst rounds m
      have hRest :=
        fun after => ih hOthers (fun s' hs' => hStatements s' (.tail _ hs')) hFreeRest after
      simp only [executeAll, hSame, hRest]

/-- A folded program runs as the program does, from every machine: it prints
the same, leaves the same frames and functions, and ends in the same way.
Folding must reach no comparison, and what stands at the top must be
statements. -/
theorem interpret_fold {statements : List Node} {folded : Node}
    (h : fold (.program statements) = .ok folded)
    (hStatements : ∀ s ∈ statements, isExpression s = false)
    (hFree : FreeOfComparisons statements) (rounds : Nat) (m : Machine) :
    interpret rounds folded m = interpret rounds (.program statements) m := by
  obtain hSame | ⟨_, others, hProgram, hAll, rfl⟩ | ⟨_, _, _, _, _, hDeclaration, -⟩ |
    ⟨_, _, _, _, _, hBinary, -⟩ := fold_cases h
  · rw [hSame]
  · cases hProgram
    exact executeAll_foldAll hAll hStatements hFree rounds m
  · cases hDeclaration
  · cases hBinary

/-- Two declarations, the second of which names an unknown variable: its
constants are folded, and the fault stays. -/
theorem interpret_fold_declarations :
    let product : Node :=
      .binary (.number (.int 2)) "*" (.binary (.number (.int 3)) "&&" (.number (.int 4)))
    let sum : Node :=
      .binary (.identifier "unknown") "+" (.binary (.number (.bool true)) "-" (.number (.int 1)))
    let statements : List Node :=
      [.declaration "a" none product false, .showStatement (.identifier "a"),
        .declaration "b" none sum false]
    let folded : Node := .program
      [.declaration "a" none (.number (.int 8)) false, .showStatement (.identifier "a"),
        .declaration "b" none (.binary (.identifier "unknown") "+" (.number (.int 0))) false]
    fold (.program statements) = .ok folded ∧ (∀ s ∈ statements, isExpression s = false) ∧
      FreeOfComparisons statements ∧
      ∀ m, interpret 0 folded m = interpret 0 (.program statements) m := by
  intro product sum statements folded
  have hFold : fold (.program statements) = .ok folded := rfl
  have hStatements : ∀ s ∈ statements, isExpression s = false := by
    simp [statements, isExpression]
  have hFree : FreeOfComparisons statements := by
    intro name type value constant hMem
    simp only [statements, List.mem_cons, Node.declaration.injEq, reduceCtorEq, List.not_mem_nil,
      false_or, or_false] at hMem
    obtain ⟨-, -, rfl, -⟩ | ⟨-, -, rfl, -⟩ := hMem <;> decide
  exact ⟨hFold, hStatements, hFree, interpret_fold hFold hStatements hFree 0⟩

end PageScript.Fold
