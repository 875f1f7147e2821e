import Mathlib.Data.List.Forall2
import PageScript.Proofs.Fold.Meaning

/-! What folding leaves. A folded tree is settled: wherever folding looks, no
operation is left whose operands are both numbers, so folding it again changes
nothing. Main statement: a folded program has the statements of the program,
one for one, and their initial values are settled. -/
namespace PageScript.Fold

/-- Whether folding looks into a node. -/
def looksInto : Node → Bool
  | .program _ => true
  | .declaration _ _ _ _ => true
  | .binary _ _ _ => true
  | _ => false

/-- Nothing is left to fold. -/
inductive Settled : Node → Prop where
  | program {statements : List Node} (inside : ∀ s ∈ statements, Settled s) :
      Settled (.program statements)
  | declaration {name : String} {type : Option Ty} {value : Node} {constant : Bool}
      (initial : Settled value) :
      Settled (.declaration name type value constant)
  | binary {left right : Node} {operator : String} (first : Settled left) (second : Settled right)
      (operands : (isNumber left && isNumber right) = false) : Settled (.binary left operator right)
  | other {n : Node} (outside : looksInto n = false) : Settled n

/-- Operations lead from the root of an expression to this node: it is the root
itself, or an operand of an operation that they lead to. -/
inductive Reaches (root : Node) : Node → Prop where
  | root : Reaches root root
  | left {left right : Node} {operator : String}
      (operation : Reaches root (.binary left operator right)) :
      Reaches root left
  | right {left right : Node} {operator : String}
      (operation : Reaches root (.binary left operator right)) :
      Reaches root right

/-- The name that a statement declares. -/
def declaredName? : Node → Option String
  | .declaration name _ _ _ => some name
  | .functionDeclaration name _ _ _ _ => some name
  | .classDeclaration name _ => some name
  | .bareClass name _ => some name
  | .qubit name => some name
  | _ => none

/-! ### One pass settles a tree -/

/-- An operation on settled operands is settled: if both are numbers, a number
takes its place. -/
theorem settled_operation {left right folded : Node} {operator : String} (hLeft : Settled left)
    (hRight : Settled right) (h : operation left operator right = .ok folded) : Settled folded := by
  obtain ⟨a, b, value, rfl, rfl, -, rfl⟩ | ⟨hOperands, rfl⟩ := operation_cases h
  · exact .other rfl
  · exact .binary hLeft hRight hOperands

mutual

/-- What folding returns is settled: where both operands have become numbers, a
number stands in place of the operation. The recursion follows folding, which
looks into programs, declarations and operations only. -/
theorem settled_of_fold (n : Node) {folded : Node} (h : fold n = .ok folded) : Settled folded := by
  cases hLooks : looksInto n with
  | false =>
      have hSame : folded = n := by
        obtain hSame | ⟨_, _, rfl, -⟩ | ⟨_, _, _, _, _, rfl, -⟩ |
            ⟨_, _, _, _, _, rfl, -⟩ := fold_cases h
        · exact hSame
        all_goals cases hLooks
      rw [hSame]
      exact .other hLooks
  | true =>
      cases n with
      | program statements =>
          obtain ⟨others, hAll, hFolded⟩ := bind_eq_ok_iff.mp h
          cases hFolded
          exact .program (settled_of_foldAll statements hAll)
      | declaration name type value constant =>
          obtain ⟨initial, hValue, hFolded⟩ := bind_eq_ok_iff.mp h
          cases hFolded
          exact .declaration (settled_of_fold value hValue)
      | binary left operator right =>
          simp only [fold, bind_eq_ok_iff] at h
          obtain ⟨foldedLeft, hLeft, foldedRight, hRight, hOperation⟩ := h
          exact settled_operation (settled_of_fold left hLeft)
            (settled_of_fold right hRight) hOperation
      | _ => cases hLooks

theorem settled_of_foldAll (statements : List Node) {folded : List Node}
    (h : foldAll statements = .ok folded) :
    ∀ s ∈ folded, Settled s := by
  cases statements with
  | nil =>
      cases h
      exact List.forall_mem_nil _
  | cons s rest =>
      obtain ⟨first, others, hFirst, hOthers, rfl⟩ := foldAll_cons_inv h
      exact List.forall_mem_cons.mpr ⟨settled_of_fold s hFirst, settled_of_foldAll rest hOthers⟩

end

theorem foldAll_of_fixed {statements : List Node} (h : ∀ s ∈ statements, fold s = .ok s) :
    foldAll statements = .ok statements := by
  induction statements with
  | nil => rfl
  | cons s rest ih =>
      obtain ⟨hFirst, hRest⟩ := List.forall_mem_cons.mp h
      rw [foldAll, hFirst, ih hRest]
      rfl

/-- A settled tree is folded to itself. -/
theorem Settled.fold_eq {n : Node} (h : Settled n) : fold n = .ok n := by
  induction h with
  | program _ ih =>
      rw [fold, foldAll_of_fixed ih]
      rfl
  | declaration _ ih =>
      rw [fold, ih]
      rfl
  | @binary left right operator _ _ operands ihLeft ihRight =>
      have hStands : operation left operator right = .ok (.binary left operator right) := by
        unfold operation
        split
        · cases operands
        · rfl
      rw [fold, ihLeft, ihRight]
      exact hStands
  | @other n outside =>
      cases n with
      | program | declaration | binary => cases outside
      | _ => rfl

/-- Operands of a settled operation are settled, as far down as operations
lead. -/
theorem Settled.of_reaches {root n : Node} (h : Settled root) (hReaches : Reaches root n) :
    Settled n := by
  induction hReaches with
  | root => exact h
  | left _ ih =>
      cases ih with
      | binary first _ _ => exact first
      | other outside => cases outside
  | right _ ih =>
      cases ih with
      | binary _ second _ => exact second
      | other outside => cases outside

/-- No operation on two numbers is reached in a settled expression. -/
theorem Settled.not_reaches_constants {root : Node} (h : Settled root) (a b : Value)
    (operator : String) :
    ¬ Reaches root (.binary (.number a) operator (.number b)) := by
  intro hReaches
  cases h.of_reaches hReaches with
  | binary _ _ operands => cases operands
  | other outside => cases outside

/-! ### Statements stay what they are -/

/-- A folded statement is of its old kind and declares its old name. An
expression that stands for itself among the statements stays an expression. -/
theorem head_of_fold {s folded : Node} (h : fold s = .ok folded) :
    declaredName? folded = declaredName? s ∧
      (folded.kindName = s.kindName ∨ isExpression s = true ∧ isExpression folded = true) := by
  obtain rfl | ⟨_, _, rfl, -, rfl⟩ | ⟨_, _, _, _, _, rfl, -, rfl⟩ |
      ⟨_, _, _, _, _, rfl, -, -, hOperation⟩ :=
    fold_cases h
  · exact ⟨rfl, .inl rfl⟩
  · exact ⟨rfl, .inl rfl⟩
  · exact ⟨rfl, .inl rfl⟩
  · obtain ⟨_, _, _, rfl, rfl, -, rfl⟩ | ⟨-, rfl⟩ := operation_cases hOperation
    · exact ⟨rfl, .inr ⟨rfl, rfl⟩⟩
    · exact ⟨rfl, .inl rfl⟩

theorem forall₂_of_foldAll {R : Node → Node → Prop}
    (hR : ∀ s folded, fold s = .ok folded → R s folded) {statements folded : List Node}
    (h : foldAll statements = .ok folded) : List.Forall₂ R statements folded := by
  induction statements generalizing folded with
  | nil =>
      cases h
      exact .nil
  | cons s rest ih =>
      obtain ⟨first, others, hFirst, hOthers, rfl⟩ := foldAll_cons_inv h
      exact .cons (hR s first hFirst) (ih hOthers)

/-- A folded program has the statements of the program one for one, each of its
old kind and with its old name; an expression that stands for itself among them
stays an expression. From the root of an initial value, operations lead to no
operation on two numbers, and folding the program again changes nothing. -/
theorem fold_program_settled {statements : List Node} {folded : Node}
    (h : fold (.program statements) = .ok folded) :
    ∃ others, folded = .program others ∧ others.length = statements.length ∧
      List.Forall₂ (fun s t => declaredName? t = declaredName? s ∧
        (t.kindName = s.kindName ∨ isExpression s = true ∧ isExpression t = true))
          statements others ∧
      (∀ name type value constant, .declaration name type value constant ∈ others →
        ∀ a operator b, ¬ Reaches value (.binary (.number a) operator (.number b))) ∧
      fold folded = .ok folded := by
  have hSettled := settled_of_fold _ h
  obtain ⟨others, hAll, hFolded⟩ := bind_eq_ok_iff.mp h
  cases hFolded
  have hHeads := forall₂_of_foldAll (fun s t hFold => head_of_fold hFold) hAll
  refine ⟨others, rfl, hHeads.length_eq.symm, hHeads, ?_, hSettled.fold_eq⟩
  intro name type value constant hMem a operator b
  have hDeclaration := settled_of_foldAll statements hAll _ hMem
  cases hDeclaration with
  | declaration initial => exact initial.not_reaches_constants a b operator
  | other outside => cases outside

/-- What is shown is left alone. In the initial value a comparison is folded,
and its truth value is then an operand of the product. -/
theorem fold_program_settled_nested :
    let shown : Node := .showStatement (.binary (.number (.int 1)) "+" (.number (.int 3)))
    let product : Node :=
      .binary (.binary (.number (.int 1)) "<" (.number (.int 2))) "*" (.number (.int 4))
    let remains : Node := .binary (.number (.int 4)) "+" (.identifier "x")
    fold (.program [shown, .declaration "y" none (.binary product "+" (.identifier "x")) false]) =
        .ok (.program [shown, .declaration "y" none remains false]) ∧
      (∀ a operator b, ¬ Reaches remains (.binary (.number a) operator (.number b))) ∧
      fold (.program [shown, .declaration "y" none remains false]) =
        .ok (.program [shown, .declaration "y" none remains false]) := by
  intro shown product remains
  have hFold :
      fold (.program [shown, .declaration "y" none (.binary product "+" (.identifier "x")) false]) =
      .ok (.program [shown, .declaration "y" none remains false]) := rfl
  obtain ⟨others, hFolded, -, -, hNormal, hAgain⟩ := fold_program_settled hFold
  cases hFolded
  exact ⟨hFold, hNormal "y" none remains false (.tail _ (.head _)), hAgain⟩

/-- A sum that stands for itself among the statements becomes a number, which
is of another kind. -/
theorem fold_program_bare_sum :
    let sum : Node := .binary (.number (.int 1)) "+" (.number (.int 2))
    fold (.program [sum]) = .ok (.program [.number (.int 3)]) ∧
      (Node.number (.int 3)).kindName ≠ sum.kindName := by
  intro sum
  exact ⟨rfl, by decide⟩

end PageScript.Fold
