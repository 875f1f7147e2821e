import PageScript.Proofs.Analysis.Progress

/-! Which operators give a value of the type that analysis announces. Sums,
differences, products and logic do; a quotient of integers is announced as an
integer and is a double, and comparisons are announced as truth values, while
an equality gives its left operand back and the others give nothing. -/
namespace PageScript.Analysis

open Run (Frame evaluate operate)

/-- Whether the operators that an expression takes its value from are sums,
differences, products and logic, or equalities between truth values. An
equality has the value of its left operand. -/
def keepsType (symbols : Symbols) : Node → Bool
  | .binary left operator right =>
    match Operator.ofText? operator with
    | some .add | some .sub | some .mul | some .and | some .or =>
      keepsType symbols left && keepsType symbols right
    | some .eq => (typeOf symbols left).toOption.any isBool && keepsType symbols left
    | _ => false
  | _ => true

/-- The quotient, the comparisons other than the equality, and the
assignment. -/
def lossyOperators : List (Option Operator) :=
  [some .div, some .ne, some .lt, some .gt, some .le, some .ge, some .assign]

/-- Whether an expression is a quotient, a comparison other than an equality,
or an assignment. -/
def losesType : Node → Bool
  | .binary _ operator _ => lossyOperators.contains (Operator.ofText? operator)
  | _ => false

section operators

variable {symbols : Symbols} {target : Node} {operator : String} {meaning : Operator}
    {left right : Option Ty}
  {type : Ty} {a b value : Value}

/-- An operation that keeps its type is arithmetic without a quotient, logic,
or an equality of truth values, and its operands keep theirs. -/
theorem keepsType_binary {l r : Node} (h : keepsType symbols (.binary l operator r) = true)
    (hText : Operator.ofText? operator = some meaning) :
    meaning ∈ [Operator.add, .sub, .mul, .and, .or] ∧ keepsType symbols l = true ∧
      keepsType symbols r = true ∨
      meaning = .eq ∧ (typeOf symbols l).toOption.any isBool = true ∧
        keepsType symbols l = true := by
  rw [keepsType, hText] at h
  cases meaning with
  | add | sub | mul | and | or =>
      rw [Bool.and_eq_true] at h
      exact .inl ⟨by decide, h⟩
  | eq =>
      rw [Bool.and_eq_true] at h
      exact .inr ⟨rfl, h⟩
  | _ => cases h

theorem eq_int_of_isNumeric (hNumeric : isNumeric left = true) (hFloat : isFloat left = false) :
    left = some .int := by
  unfold isNumeric at hNumeric
  split at hNumeric
  · rfl
  · cases hFloat
  · cases hNumeric

/-- Arithmetic that is announced as an integer is arithmetic on integers. -/
theorem operands_of_arithmetic (hLeft : isNumeric left = true) (hRight : isNumeric right = true)
    (hWhole : (if isFloat left || isFloat right then Ty.float else .int) = .int) :
    left = some .int ∧ right = some .int := by
  cases hFloat : isFloat left || isFloat right with
  | true =>
      rw [hFloat] at hWhole
      cases hWhole
  | false =>
      rw [Bool.or_eq_false_iff] at hFloat
      exact ⟨eq_int_of_isNumeric hLeft hFloat.1, eq_int_of_isNumeric hRight hFloat.2⟩

/-- Sums, differences and products of integers are integers. A truth value
counts as an integer here, so the operands are taken by what they count as. -/
theorem operate_integers (hText : Operator.ofText? operator = some meaning)
    (hMeaning : meaning ∈ [Operator.add, .sub, .mul]) (ha : hasType .int a = true)
    (hb : hasType .int b = true) (h : operate operator a b = .ok value) :
    hasType .int value = true := by
  obtain ⟨i, ha⟩ := Option.isSome_iff_exists.mp ha
  obtain ⟨j, hb⟩ := Option.isSome_iff_exists.mp hb
  have hLeft := number?_of_count? ha
  have hRight := number?_of_count? hb
  have hWhole : operate operator a b = .ok (.int (i + j)) ∨
      operate operator a b = .ok (.int (i - j)) ∨
      operate operator a b = .ok (.int (i * j)) := by
    rw [operate, hText]
    cases meaning with
    | add => exact .inl (congrArg (Except.mapError Fault.arithmetic) (add_of_numbers hLeft hRight))
    | sub =>
        exact .inr (.inl (congrArg (Except.mapError Fault.arithmetic)
          (sub_of_numbers hLeft hRight)))
    | mul =>
        exact .inr (.inr (congrArg (Except.mapError Fault.arithmetic)
          (mul_of_numbers hLeft hRight)))
    | _ => exact absurd hMeaning (by decide)
  rw [h] at hWhole
  rcases hWhole with h | h | h
  all_goals
    cases h
    rfl

/-- Where an operator keeps types, both operands of an integer are integers and
both operands of a truth value are truth values, and then the result is one. -/
theorem operate_keeps (hText : Operator.ofText? operator = some meaning)
    (hMeaning : meaning ∈ [Operator.add, .sub, .mul, .and, .or])
    (hRule : OperandRule symbols target meaning left right (some type))
    (hWhole : type = .int ∨ type = .bool) :
    left = some type ∧ right = some type ∧
      (hasType type a = true → hasType type b = true → operate operator a b = .ok value →
        hasType type value = true) := by
  cases hRule with
  | arithmetic hArithmetic hLeft hRight =>
      have hInt : (if isFloat left || isFloat right then Ty.float else .int) = .int := by
        rcases hWhole with h | h
        · exact h
        · split at h <;> cases h
      obtain ⟨rfl, rfl⟩ := operands_of_arithmetic hLeft hRight hInt
      refine ⟨rfl, rfl, fun ha hb h => operate_integers hText ?_ ha hb h⟩
      cases meaning with
      | add | sub | mul => decide
      | _ => first
        | exact absurd hMeaning (by decide)
        | exact absurd hArithmetic (by decide)
  | logical hLogical =>
      refine ⟨rfl, rfl, fun ha hb h => ?_⟩
      obtain hPicked | hPicked := operate_logical hText hLogical a b
      · cases h.symm.trans hPicked
        exact ha
      · cases h.symm.trans hPicked
        exact hb
  | comparison hComparison =>
      cases meaning <;> first
        | exact absurd hMeaning (by decide)
        | exact absurd hComparison (by decide)
  | assignment => exact absurd hMeaning (by decide)

/-- What each operator without a value of the announced type leaves in its
place. -/
theorem operate_loses (hText : Operator.ofText? operator = some meaning)
    (hMeaning : meaning ∈ [Operator.div, .ne, .lt, .gt, .le, .ge, .assign])
    (h : operate operator a b = .ok value) :
    IsDouble value ∨ value = .none := by
  rw [operate, hText] at h
  cases meaning with
  | div =>
      cases hQuotient : a.div b with
      | error cause =>
          dsimp only at h
          rw [hQuotient] at h
          cases h
      | ok quotient =>
          dsimp only at h
          rw [hQuotient] at h
          cases h
          exact .inl (isDouble_of_div hQuotient)
  | ne | lt | gt | le | ge | assign =>
      cases h
      exact .inr rfl
  | _ => exact absurd hMeaning (by decide)

end operators

section evaluation

variable {symbols : Symbols} {frames : List Frame}

/-- A binary operation has a value only if both operands have one, and then it
is that of the operator on them. -/
theorem evaluate_binary_ok {left right : Node} {operator : String} {value : Value}
    (h : evaluate frames (.binary left operator right) = .ok value) :
    ∃ a b, evaluate frames left = .ok a ∧ evaluate frames right = .ok b ∧
      operate operator a b = .ok value := by
  simp only [evaluate, bind_eq_ok_iff] at h
  obtain ⟨a, ha, b, hb, h⟩ := h
  exact ⟨a, b, ha, hb, h⟩

/-- Where the operators keep types, an expression that is announced as an
integer or as a truth value has such a value. The recursion follows the
operands that the value comes from. -/
theorem hasType_of_keepsType (hAgrees : Agrees hasType symbols frames) (e : Node)
    (hKeeps : keepsType symbols e = true) {type : Ty} (hWhole : type = .int ∨ type = .bool)
    (hType : typeOf symbols e = .ok (some type)) {value : Value}
    (hValue : evaluate frames e = .ok value) :
    hasType type value = true := by
  cases e with
  | number literal =>
      rw [typeOf, Except.ok.injEq] at hType
      obtain rfl : literal = value := Except.ok.inj hValue
      cases literal with
      | int | bool =>
          cases hType
          rfl
      | float =>
          cases hType
          rcases hWhole with h | h <;> cases h
      | _ => cases hType
  | string s =>
      cases hType
      rcases hWhole with h | h <;> cases h
  | bool b =>
      cases hType
      cases hValue
      rfl
  | identifier name =>
      rw [typeOf] at hType
      have hBasic : isBasic type = true := by
        rcases hWhole with rfl | rfl <;> rfl
      obtain ⟨bound, hFound, hBound⟩ := hAgrees name type (variableType_ok hType) hBasic
      rw [evaluate, hFound] at hValue
      cases hValue
      exact hBound
  | binary l operator r =>
      obtain ⟨left, right, meaning, hLeft, hRight, hText, hRule⟩ := typeOf_binary_ok hType
      obtain ⟨a, b, ha, hb, hOperate⟩ := evaluate_binary_ok hValue
      obtain ⟨hMeaning, hKeepsLeft, hKeepsRight⟩ | ⟨rfl, hBool, hKeepsLeft⟩ :=
        keepsType_binary hKeeps hText
      · obtain ⟨rfl, rfl, hResult⟩ := operate_keeps hText hMeaning hRule hWhole
        exact hResult (hasType_of_keepsType hAgrees l hKeepsLeft hWhole hLeft ha)
          (hasType_of_keepsType hAgrees r hKeepsRight hWhole hRight hb) hOperate
      · rw [hLeft] at hBool
        rw [eq_bool_of_isBool hBool] at hLeft
        rw [operate, hText] at hOperate
        cases hOperate
        cases hRule with
        | comparison => exact hasType_of_keepsType hAgrees l hKeepsLeft (.inr rfl) hLeft ha
        | arithmetic hMeaning => exact absurd hMeaning (by decide)
        | logical hMeaning => exact absurd hMeaning (by decide)
  | _ => cases hValue

/-- The type that analysis announces for an integer or a truth value, against
the value. Where all operators that the value comes from are sums, differences,
products and logic, or equalities between truth values, the value is of that
type. A quotient, another comparison or an assignment never has a value of its
type, and an equality has the value of its left operand. -/
theorem evaluate_type_by_operator (hAgrees : Agrees hasType symbols frames) {e : Node} {type : Ty}
    (hWhole : type = .int ∨ type = .bool) (hType : typeOf symbols e = .ok (some type))
    {value : Value} (hValue : evaluate frames e = .ok value) :
    (keepsType symbols e = true → hasType type value = true) ∧
    (losesType e = true → hasType type value = false) ∧
    (∀ left right, e = .binary left "==" right → evaluate frames left = .ok value) := by
  refine ⟨fun hKeeps => hasType_of_keepsType hAgrees e hKeeps hWhole hType hValue, ?_, ?_⟩
  · intro hLoses
    cases e with
    | binary l operator r =>
        obtain ⟨-, -, meaning, -, -, hText, -⟩ := typeOf_binary_ok hType
        obtain ⟨a, b, -, -, hOperate⟩ := evaluate_binary_ok hValue
        have hMeaning : meaning ∈ [Operator.div, .ne, .lt, .gt, .le, .ge, .assign] := by
          simpa [losesType, lossyOperators, hText] using hLoses
        obtain ⟨x, rfl⟩ | rfl := operate_loses hText hMeaning hOperate
        · rcases hWhole with rfl | rfl <;> rfl
        · rcases hWhole with rfl | rfl <;> rfl
    | _ => cases hLoses
  · rintro left right rfl
    obtain ⟨a, b, ha, -, hOperate⟩ := evaluate_binary_ok hValue
    cases hOperate
    exact ha

end evaluation

/-- With an integer variable that is three, twice the variable and one is an
integer, while half of it is announced as an integer and is a double. -/
theorem evaluate_type_by_operator_half :
    let symbols : Symbols := ⟨[("n", .variable (some .int))]⟩
    let frames : List Frame := [⟨[("n", .int 3)]⟩]
    let twice : Node :=
      .binary (.binary (.number (.int 2)) "*" (.identifier "n")) "+" (.number (.int 1))
    let half : Node := .binary (.identifier "n") "/" (.number (.int 2))
    Agrees hasType symbols frames ∧
      (typeOf symbols twice = .ok (some .int) ∧ evaluate frames twice = .ok (.int 7) ∧
        hasType .int (.int 7) = true) ∧
      (typeOf symbols half = .ok (some .int) ∧ evaluate frames half = .ok (.float 1.5) ∧
        hasType .int (.float 1.5) = false) := by
  intro symbols frames twice half
  have hAgrees : Agrees hasType symbols frames := agrees_singleton rfl
  have hTwice := evaluate_type_by_operator hAgrees (e := twice) (.inl rfl) rfl rfl
  have hHalf := evaluate_type_by_operator hAgrees (e := half) (.inl rfl) rfl rfl
  exact ⟨hAgrees, ⟨rfl, rfl, hTwice.1 rfl⟩, rfl, rfl, hHalf.2.1 rfl⟩

/-- An equality of integers is announced as a truth value and is an integer,
and a quotient of integers is announced as an integer and is a double. -/
theorem evaluate_equality_not_bool :
    let equality : Node := .binary (.number (.int 1)) "==" (.number (.int 2))
    let quotient : Node := .binary (.number (.int 6)) "/" (.number (.int 3))
    Agrees hasType .empty [.empty] ∧
      (typeOf .empty equality = .ok (some .bool) ∧ evaluate [.empty] equality = .ok (.int 1) ∧
        hasType .bool (.int 1) = false) ∧
      (typeOf .empty quotient = .ok (some .int) ∧
        evaluate [.empty] quotient = .ok (.float 2.0) ∧
        hasType .int (.float 2.0) = false) := by
  intro equality quotient
  have hAgrees : Agrees hasType .empty [.empty] := by
    intro name type hDeclared
    cases hDeclared
  exact ⟨hAgrees, ⟨rfl, rfl, rfl⟩, rfl, rfl, rfl⟩

end PageScript.Analysis
