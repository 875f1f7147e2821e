import PageScript.Proofs.Analysis.Typing
import PageScript.Proofs.Value.Arithmetic

/-! Expressions that analysis accepts do not get stuck. Main statement: an
expression of literals, variables, arithmetic and logic has a value of the kind
that its type means, or ends with a fault of arithmetic on numbers. -/
namespace PageScript.Analysis

open Run (Frame evaluate operate)

/-- The operators of arithmetic and logic. -/
def plainOperators : List (Option Operator) :=
  [some .add, some .sub, some .mul, some .div, some .and, some .or]

/-- Expressions made of literals, variables, arithmetic and logic. A number
literal holds a number. -/
def isPlain : Node → Bool
  | .number value => value.number?.isSome
  | .string _ => true
  | .bool _ => true
  | .identifier _ => true
  | .binary left operator right =>
    decide (Operator.ofText? operator ∈ plainOperators) && isPlain left && isPlain right
  | _ => false

/-- A value of the kind of a type, or a fault of arithmetic on numbers. -/
def Yields (type : Ty) : Except Fault Value → Prop
  | .ok value => hasKind type value = true
  | .error fault => ∃ cause ∈ numericFaults, fault = .arithmetic cause

section operators

variable {operator : String} {meaning : Operator} {a b value : Value}

theorem yields_of_delivers {result : Except ArithmeticFault Value} (h : Delivers IsNumber result) :
    Yields .float (result.mapError .arithmetic) := by
  cases result with
  | ok value => exact h
  | error cause => exact ⟨cause, h, rfl⟩

/-- Arithmetic on two numbers gives a number, or ends with a fault of
arithmetic. -/
theorem operate_numbers (hText : Operator.ofText? operator = some meaning)
    (hMeaning : meaning ∈ [Operator.add, .sub, .mul, .div]) (ha : a.number?.isSome = true)
    (hb : b.number?.isSome = true) : Yields .float (operate operator a b) := by
  obtain ⟨m, ha⟩ := Option.isSome_iff_exists.mp ha
  obtain ⟨n, hb⟩ := Option.isSome_iff_exists.mp hb
  rw [operate, hText]
  cases meaning with
  | add => exact yields_of_delivers (add_of_numbers ha hb ▸ delivers_combine _ _ m n)
  | sub => exact yields_of_delivers (sub_of_numbers ha hb ▸ delivers_combine _ _ m n)
  | mul => exact yields_of_delivers (mul_of_numbers ha hb ▸ delivers_combine _ _ m n)
  | div =>
      exact yields_of_delivers (div_of_numbers ha hb ▸ (delivers_divide m n).mono
        fun _ h => h.isNumber)
  | _ => exact absurd hMeaning (by decide)

/-- Logic gives back one of its operands. -/
theorem operate_logical (hText : Operator.ofText? operator = some meaning)
    (hMeaning : meaning ∈ [Operator.and, .or]) (a b : Value) :
    operate operator a b = .ok a ∨ operate operator a b = .ok b := by
  rw [operate, hText]
  cases meaning with
  | and =>
      dsimp only [Value.and]
      split
      · exact .inr rfl
      · exact .inl rfl
  | or =>
      dsimp only [Value.or]
      split
      · exact .inl rfl
      · exact .inr rfl
  | _ => exact absurd hMeaning (by decide)

end operators

section evaluation

variable {symbols : Symbols} {frames : List Frame} {left right : Node} {operator : String}
  {leftType rightType type : Ty}

/-- An operation yields what its operator makes of what its operands yield. -/
theorem yields_binary (hLeft : Yields leftType (evaluate frames left))
    (hRight : Yields rightType (evaluate frames right))
    (hOperate : ∀ a b, hasKind leftType a = true → hasKind rightType b = true →
      Yields type (operate operator a b)) :
    Yields type (evaluate frames (.binary left operator right)) := by
  rw [evaluate]
  cases hA : evaluate frames left with
  | error fault =>
      rw [hA] at hLeft
      exact hLeft
  | ok a =>
      rw [hA] at hLeft
      cases hB : evaluate frames right with
      | error fault =>
          rw [hB] at hRight
          exact hRight
      | ok b =>
          rw [hB] at hRight
          exact hOperate a b hLeft hRight

/-- An expression of literals, variables, arithmetic and logic that analysis
gives one of the four types evaluates to a value of that kind, or to a fault of
arithmetic on numbers: no operand is of a wrong kind, no operator is unknown
and no variable is missing. -/
theorem evaluate_yields_kind (hAgrees : Agrees hasKind symbols frames) (e : Node)
    (hPlain : isPlain e = true) {type : Ty} (hBasic : isBasic type = true)
    (hType : typeOf symbols e = .ok (some type)) :
    Yields type (evaluate frames e) := by
  cases e with
  | number value =>
      rw [typeOf, Except.ok.injEq] at hType
      cases value with
      | int | bool | float =>
          cases hType
          exact rfl
      | _ => cases hType
  | string s =>
      cases hType
      exact rfl
  | bool b =>
      cases hType
      exact rfl
  | identifier name =>
      rw [typeOf] at hType
      obtain ⟨value, hFound, hKind⟩ := hAgrees name type (variableType_ok hType) hBasic
      rw [evaluate, hFound]
      exact hKind
  | binary l operator r =>
      simp only [isPlain, Bool.and_eq_true, decide_eq_true_eq] at hPlain
      obtain ⟨⟨hOperator, hPlainLeft⟩, hPlainRight⟩ := hPlain
      obtain ⟨left, right, meaning, hLeft, hRight, hText, hRule⟩ := typeOf_binary_ok hType
      cases hRule with
      | arithmetic hMeaning hNumericLeft hNumericRight =>
          obtain ⟨t, rfl, hBasicLeft, hKindLeft⟩ := exists_of_isNumeric hNumericLeft
          obtain ⟨u, rfl, hBasicRight, hKindRight⟩ := exists_of_isNumeric hNumericRight
          refine yields_binary (evaluate_yields_kind hAgrees l hPlainLeft hBasicLeft hLeft)
            (evaluate_yields_kind hAgrees r hPlainRight hBasicRight hRight) fun a b ha hb => ?_
          rw [hKindLeft] at ha
          rw [hKindRight] at hb
          have hNumbers := operate_numbers hText hMeaning ha hb
          split
          · exact hNumbers
          · exact hNumbers
      | logical hMeaning =>
          refine yields_binary (evaluate_yields_kind hAgrees l hPlainLeft rfl hLeft)
            (evaluate_yields_kind hAgrees r hPlainRight rfl hRight) fun a b ha hb => ?_
          obtain hPicked | hPicked := operate_logical hText hMeaning a b
          · rw [hPicked]
            exact ha
          · rw [hPicked]
            exact hb
      | comparison hMeaning =>
          rw [hText] at hOperator
          cases meaning <;> first
            | exact absurd hOperator (by decide)
            | exact absurd hMeaning (by decide)
      | assignment =>
          rw [hText] at hOperator
          exact absurd hOperator (by decide)
  | _ => cases hPlain

/-- A truth value takes part in arithmetic as a number, and a quotient by zero
is a fault. -/
theorem evaluate_yields_kind_quotient :
    let symbols : Symbols := ⟨[("n", .variable (some .int))]⟩
    let frames : List Frame := [⟨[("n", .bool true)]⟩]
    let quotient : Node :=
      .binary (.number (.int 1)) "/" (.binary (.identifier "n") "-" (.number (.int 1)))
    Agrees hasKind symbols frames ∧ isPlain quotient = true ∧
      typeOf symbols quotient = .ok (some .int) ∧
      evaluate frames quotient = .error (.arithmetic .divisionByZero) ∧
        Yields .int (evaluate frames quotient) := by
  intro symbols frames quotient
  have hAgrees : Agrees hasKind symbols frames := agrees_singleton rfl
  exact ⟨hAgrees, rfl, rfl, rfl, evaluate_yields_kind hAgrees quotient rfl rfl rfl⟩

end evaluation

end PageScript.Analysis
