import PageScript.Analysis
import PageScript.Proofs.Sequencing
import PageScript.Run.Evaluate

/-! Types as analysis gives them. Analysis types an operation by its operator
and the types of its operands; what each operator demands of these is said
once, as a rule. Beside the types stand the kinds of values they mean. -/
namespace PageScript.Analysis

open Run (Frame)

/-- The four types that values of a running script have. -/
def isBasic : Ty → Bool
  | .int => true
  | .float => true
  | .bool => true
  | .string => true
  | _ => false

/-- Whether a value is of the kind that a type stands for. Both number types
stand for all numbers, and truth values are among these. -/
def hasKind : Ty → Value → Bool
  | .int, value => value.number?.isSome
  | .float, value => value.number?.isSome
  | .bool, .bool _ => true
  | .string, .text _ => true
  | _, _ => false

/-- Whether a value is of a type. Only integers are of the integer type; a
truth value is one of them. -/
def hasType : Ty → Value → Bool
  | .int, value => value.count?.isSome
  | type, value => hasKind type value

/-- Every variable declared with one of the four types is bound to a value that
fits its type. Nothing is said of other variables. -/
def Agrees (fits : Ty → Value → Bool) (symbols : Symbols) (frames : List Frame) : Prop :=
  ∀ name type, symbols.get? name = some (.variable (some type)) → isBasic type = true →
    ∃ value, findInChain frames name = some value ∧ fits type value = true

/-- One variable that is bound to a value of its type. -/
theorem agrees_singleton {fits : Ty → Value → Bool} {name : String} {type : Ty} {value : Value}
    (h : fits type value = true) :
    Agrees fits ⟨[(name, .variable (some type))]⟩ [⟨[(name, value)]⟩] := by
  intro other declared hDeclared _
  by_cases hName : other = name
  · subst hName
    simp only [Table.get?, List.lookup_cons_self, Option.some.injEq,
      Declared.variable.injEq] at hDeclared
    subst hDeclared
    exact ⟨value, by simp [findInChain, Table.get?], h⟩
  · have hOther : (other == name) = false := by simpa using hName
    simp [Table.get?, List.lookup_cons, hOther] at hDeclared

/-! ### What analysis demands of an operation -/

/-- The demands of each operator on the types of its operands, and the type it
is given. Only an assignment looks at more than the types: at the variable it
assigns to. -/
inductive OperandRule (symbols : Symbols) (target : Node) :
    Operator → Option Ty → Option Ty → Option Ty → Prop where
  | arithmetic {meaning : Operator} {left right : Option Ty}
      (hMeaning : meaning ∈ [.add, .sub, .mul, .div])
      (hLeft : isNumeric left = true) (hRight : isNumeric right = true) :
      OperandRule symbols target meaning left right
        (some (if isFloat left || isFloat right then .float else .int))
  | logical {meaning : Operator} (hMeaning : meaning ∈ [.and, .or]) :
      OperandRule symbols target meaning (some .bool) (some .bool) (some .bool)
  | comparison {meaning : Operator} {left right : Option Ty}
      (hMeaning : meaning ∈ [.eq, .ne, .lt, .gt, .le, .ge])
      (hAccepts : Ty.accepts left right = true) :
      OperandRule symbols target meaning left right (some .bool)
  | assignment {name : String} {left right type : Option Ty} (hTarget : target = .identifier name)
      (hDeclared : symbols.get? name = some (.variable type))
      (hAccepts : Ty.accepts type right = true) :
      OperandRule symbols target .assign left right type

section types

variable {symbols : Symbols} {target : Node} {operator : String} {left right type : Option Ty}

theorem eq_bool_of_isBool (h : isBool type = true) : type = some .bool := by
  unfold isBool at h
  split at h
  · rfl
  · cases h

/-- A numeric type stands for numbers of both sorts. -/
theorem exists_of_isNumeric (h : isNumeric type = true) :
    ∃ t, type = some t ∧ isBasic t = true ∧ ∀ value,
      hasKind t value = value.number?.isSome := by
  unfold isNumeric at h
  split at h
  · exact ⟨.int, rfl, rfl, fun _ => rfl⟩
  · exact ⟨.float, rfl, rfl, fun _ => rfl⟩
  · cases h

/-- Arithmetic demands numbers on both sides, and is a double as soon as one of
them is. -/
theorem arithmeticType_ok (h : arithmeticType operator left right = .ok type) :
    isNumeric left = true ∧ isNumeric right = true ∧
      type = some (if isFloat left || isFloat right then .float else .int) := by
  unfold arithmeticType at h
  split at h
  · rename_i hBoth
    rw [Bool.and_eq_true] at hBoth
    cases h
    exact ⟨hBoth.1, hBoth.2, rfl⟩
  · cases h

theorem logicalType_ok (h : logicalType left right = .ok type) :
    left = some .bool ∧ right = some .bool ∧ type = some .bool := by
  unfold logicalType at h
  split at h
  · rename_i hBoth
    rw [Bool.and_eq_true] at hBoth
    cases h
    exact ⟨eq_bool_of_isBool hBoth.1, eq_bool_of_isBool hBoth.2, rfl⟩
  · cases h

/-- A comparison demands a right operand that the left one accepts, and is a
truth value. -/
theorem comparisonType_ok (h : comparisonType left right = .ok type) :
    Ty.accepts left right = true ∧ type = some .bool := by
  unfold comparisonType at h
  split at h
  · rename_i hAccepts
    cases h
    exact ⟨hAccepts, rfl⟩
  · cases h

/-- An assignment demands a variable on the left that accepts the right side,
and has the type of the variable. -/
theorem assignmentType_ok (h : assignmentType symbols target right = .ok type) :
    ∃ name, target = .identifier name ∧ symbols.get? name = some (.variable type) ∧
      Ty.accepts type right = true := by
  cases target with
  | identifier name =>
      rcases hDeclared : symbols.get? name with _ | declaredType | _
      · simp [assignmentType, hDeclared, fail] at h
      · by_cases hAccepts : Ty.accepts declaredType right = true
        · simp only [assignmentType, hDeclared, hAccepts, if_true, Except.ok.injEq] at h
          subst h
          exact ⟨name, rfl, hDeclared, hAccepts⟩
        · simp [assignmentType, hDeclared, hAccepts, fail] at h
      · simp [assignmentType, hDeclared, fail] at h
  | _ => cases h

/-- Everything that typing an operation can rest on. One case for each
operator; the other rules for operands do not apply to it. -/
theorem binaryType_ok (h : binaryType symbols target operator left right = .ok type) :
    ∃ meaning, Operator.ofText? operator = some meaning ∧
      OperandRule symbols target meaning left right type := by
  cases hText : Operator.ofText? operator with
  | none =>
      rw [binaryType, hText] at h
      cases h
  | some meaning =>
      refine ⟨meaning, rfl, ?_⟩
      rw [binaryType, hText] at h
      cases meaning with
      | add | sub | mul | div =>
          obtain ⟨hLeft, hRight, rfl⟩ := arithmeticType_ok h
          exact .arithmetic (by decide) hLeft hRight
      | and | or =>
          obtain ⟨rfl, rfl, rfl⟩ := logicalType_ok h
          exact .logical (by decide)
      | eq | ne | lt | gt | le | ge =>
          obtain ⟨hAccepts, rfl⟩ := comparisonType_ok h
          exact .comparison (by decide) hAccepts
      | assign =>
          obtain ⟨name, hTarget, hDeclared, hAccepts⟩ := assignmentType_ok h
          exact .assignment hTarget hDeclared hAccepts
      | addAssign => cases h

/-- A name has the type of a variable only if the table has it as one. -/
theorem variableType_ok {name : String} (h : variableType symbols name = .ok type) :
    symbols.get? name = some (.variable type) := by
  rcases hDeclared : symbols.get? name with _ | declaredType | _
  · simp [variableType, hDeclared, fail] at h
  · simp only [variableType, hDeclared, Except.ok.injEq] at h
    rw [h]
  · simp [variableType, hDeclared, fail] at h

/-- The parts of a typed operation are typed. -/
theorem typeOf_binary_ok {l r : Node} (h : typeOf symbols (.binary l operator r) = .ok type) :
    ∃ left right meaning, typeOf symbols l = .ok left ∧ typeOf symbols r = .ok right ∧
      Operator.ofText? operator = some meaning ∧
        OperandRule symbols l meaning left right type := by
  simp only [typeOf, bind_eq_ok_iff] at h
  obtain ⟨left, hLeft, right, hRight, h⟩ := h
  obtain ⟨meaning, hText, hRule⟩ := binaryType_ok h
  exact ⟨left, right, meaning, hLeft, hRight, hText, hRule⟩

end types

end PageScript.Analysis
