import PageScript.Proofs.Analysis.Acceptance
import PageScript.Proofs.Fold.Meaning
import PageScript.Proofs.Value.Arithmetic

/-! What folding does to types. Analysis types an operation by its operator,
and a number literal by the number. A sum, a difference or a product of numbers
is folded to a number of its own type, and so is a quotient one side of which
is a double; every other operation that is folded changes its type. Main
statement: a program in which folding carries out operations of the first sort
only is accepted or refused as before, and no other operation can be added to
these. -/
namespace PageScript.Fold

open Analysis

/-- Folding the tree carries out this operator on these two constants. -/
inductive CarriesOut (operator : String) (a b : Value) : Node → Prop where
  | here {left right : Node} (first : fold left = .ok (.number a))
      (second : fold right = .ok (.number b)) :
      CarriesOut operator a b (.binary left operator right)
  | left {left right : Node} {outer : String} (inside : CarriesOut operator a b left) :
      CarriesOut operator a b (.binary left outer right)
  | right {left right : Node} {outer : String} (inside : CarriesOut operator a b right) :
      CarriesOut operator a b (.binary left outer right)
  | value {name : String} {type : Option Ty} {value : Node} {constant : Bool}
      (inside : CarriesOut operator a b value) :
      CarriesOut operator a b (.declaration name type value constant)
  | statement {s : Node} {statements : List Node} (among : s ∈ statements)
      (inside : CarriesOut operator a b s) :
      CarriesOut operator a b (.program statements)

/-- Whether an operation on two constants is folded to a literal of its own
type. -/
def retainsType (operator : String) (a b : Value) : Bool :=
  a.number?.isSome && b.number?.isSome &&
    match Operator.ofText? operator with
    | some .add | some .sub | some .mul => true
    | some .div => isFloat (literalType a) || isFloat (literalType b)
    | _ => false

/-- Folding the tree carries out no operation that changes its type. -/
def RetainsTypes (n : Node) : Prop :=
  ∀ operator a b, CarriesOut operator a b n → retainsType operator a b = true

/-! ### The types of constants -/

section constants

variable {a b value : Value} {m n : Number}

theorem isNumeric_literalType (v : Value) : isNumeric (literalType v) = v.number?.isSome := by
  cases v <;> rfl

theorem literalType_ne_bool (v : Value) : literalType v ≠ some .bool := by
  cases v <;> simp [literalType]

/-- The type of what arithmetic makes of two numbers, other than a quotient. It
is a double if one side is, and otherwise an integer, as analysis says. -/
theorem literalType_combine {whole : Int → Int → Int} {double : Float → Float → Float}
    (ha : a.number? = some m) (hb : b.number? = some n) (h : m.combine whole double n = .ok value) :
    literalType value = some (if isFloat (literalType a) ||
      isFloat (literalType b) then .float else .int) := by
  have hDoubles (x : m.toFloat >>= (fun x => n.toFloat >>= fun y => .ok (.float (double x y))) =
      .ok value) :
      literalType value = some .float := by
    obtain ⟨p, -, hNext⟩ := bind_eq_ok_iff.mp x
    obtain ⟨q, -, hValue⟩ := bind_eq_ok_iff.mp hNext
    cases hValue
    rfl
  cases a with
  | bool | int =>
      cases ha
      cases b with
      | bool | int =>
          cases hb
          cases h
          rfl
      | float =>
          cases hb
          exact hDoubles h
      | _ => cases hb
  | float =>
      cases ha
      have hEither : literalType value = some .float := by
        cases n <;> exact hDoubles h
      rw [hEither]
      rfl
  | _ => cases ha

/-- What the analysis of an operation on two constants says, where folding does
not change the type. The operator is then a sum, a difference or a product, or
a quotient with a double on one side. -/
theorem binaryType_constants {operator : String} (h : retainsType operator a b = true)
    (hConstant : constant operator a b = .ok value) (symbols : Symbols) (target : Node) :
    binaryType symbols target operator (literalType a) (literalType b) =
      .ok (literalType value) := by
  unfold retainsType at h
  rw [Bool.and_eq_true, Bool.and_eq_true] at h
  obtain ⟨⟨hLeft, hRight⟩, hOperator⟩ := h
  obtain ⟨m, ha⟩ := Option.isSome_iff_exists.mp hLeft
  obtain ⟨n, hb⟩ := Option.isSome_iff_exists.mp hRight
  have hNumeric : arithmeticType operator (literalType a) (literalType b) =
      .ok (some (if isFloat (literalType a) || isFloat (literalType b) then .float else .int)) := by
    rw [arithmeticType, isNumeric_literalType, isNumeric_literalType, hLeft, hRight]
    rfl
  have hPlain {whole : Int → Int → Int} {double : Float → Float → Float}
      (hCombine : m.combine whole double n = .ok value) :
      arithmeticType operator (literalType a) (literalType b) = .ok (literalType value) := by
    rw [literalType_combine ha hb hCombine]
    exact hNumeric
  unfold binaryType
  unfold constant at hConstant
  split at hOperator
  · rename_i hText
    rw [hText] at hConstant ⊢
    exact hPlain ((add_of_numbers ha hb).symm.trans hConstant)
  · rename_i hText
    rw [hText] at hConstant ⊢
    exact hPlain ((sub_of_numbers ha hb).symm.trans hConstant)
  · rename_i hText
    rw [hText] at hConstant ⊢
    exact hPlain ((mul_of_numbers ha hb).symm.trans hConstant)
  · rename_i hText
    rw [hText] at hConstant ⊢
    obtain ⟨x, rfl⟩ := isDouble_of_div hConstant
    rw [hOperator] at hNumeric
    exact hNumeric
  · cases hOperator

end constants

/-! ### The types of folded expressions -/

/-- Only an identifier can be assigned to, and folding neither makes nor
removes one. -/
theorem assignmentType_fold {n folded : Node} (h : fold n = .ok folded) (symbols : Symbols)
    (value : Option Ty) :
    assignmentType symbols folded value = assignmentType symbols n value := by
  obtain rfl | ⟨_, _, rfl, -, rfl⟩ | ⟨_, _, _, _, _, rfl, -, rfl⟩ |
      ⟨_, _, _, _, _, rfl, -, -, hOperation⟩ :=
    fold_cases h
  · rfl
  · rfl
  · rfl
  · obtain ⟨_, _, _, rfl, rfl, -, rfl⟩ | ⟨-, rfl⟩ := operation_cases hOperation <;> rfl

/-- Folding the left operand does not change the type of an operation. The
operand itself matters only where it is assigned to. -/
theorem binaryType_fold {n folded : Node} (h : fold n = .ok folded) (symbols : Symbols)
    (operator : String) (left right : Option Ty) :
    binaryType symbols folded operator left right = binaryType symbols n operator left right := by
  unfold binaryType
  rw [assignmentType_fold h]

/-- Folding that retains types keeps the type of an expression in every table,
and the fault if it has none. The recursion follows the operations from the
root down. A program or a declaration has no type, folded or not. -/
theorem typeOf_fold (symbols : Symbols) (n : Node) {folded : Node} (h : fold n = .ok folded)
    (hRetains : RetainsTypes n) : typeOf symbols folded = typeOf symbols n := by
  obtain rfl | ⟨_, _, rfl, -, rfl⟩ | ⟨_, _, _, _, _, rfl, -, rfl⟩ |
    ⟨left, operator, right, foldedLeft, foldedRight, rfl, hLeft, hRight, hOperation⟩ :=
    fold_cases h
  · rfl
  · rfl
  · rfl
  · have hSameLeft :=
      typeOf_fold symbols left hLeft fun o a b hInside => hRetains o a b (.left hInside)
    have hSameRight :=
      typeOf_fold symbols right hRight fun o a b hInside => hRetains o a b (.right hInside)
    have hSame : typeOf symbols (.binary left operator right) =
        typeOf symbols (.binary foldedLeft operator foldedRight) := by
      simp only [typeOf, hSameLeft, hSameRight, binaryType_fold hLeft]
    rw [hSame]
    obtain ⟨a, b, value, rfl, rfl, hConstant, rfl⟩ | ⟨-, rfl⟩ := operation_cases hOperation
    · have hRetained := hRetains operator a b (.here hLeft hRight)
      exact (binaryType_constants hRetained hConstant symbols _).symm
    · rfl
termination_by sizeOf n
decreasing_by all_goals subst_vars; simp only [Node.binary.sizeOf_spec]; omega

/-! ### Verdicts -/

/-- Both are accepted or both are refused, and the symbols are the same. -/
structure SameVerdict (first second : Analysed) : Prop where
  symbols : first.symbols = second.symbols
  accepted : first.fault = none ↔ second.fault = none

/-- If both are accepted, the symbols are the same. -/
def SameSymbols (first second : Analysed) : Prop :=
  first.fault = none → second.fault = none → first.symbols = second.symbols

/-- The relation holds between an analysis and itself and between refusals with
the same symbols, and it goes on from statement to statement. -/
structure Composes (R : Analysed → Analysed → Prop) : Prop where
  same (x : Analysed) : R x x
  refused (symbols : Symbols) (cause cause' : Fault) :
    R ⟨symbols, some cause⟩ ⟨symbols, some cause'⟩
  andThen {x y : Analysed} {next next' : Symbols → Analysed} (first : R x y)
      (others : ∀ symbols, R (next symbols) (next' symbols)) :
      R (x.andThen next) (y.andThen next')

/-- To be accepted alike, with the same symbols, goes on from statement to
statement. -/
theorem composes_sameVerdict : Composes SameVerdict where
  same _ := ⟨rfl, Iff.rfl⟩
  refused _ _ _ := ⟨rfl, by simp⟩
  andThen := by
    rintro ⟨symbols, fault⟩ ⟨symbols', fault'⟩ next next' ⟨hSymbols, hAccepted⟩ hNext
    dsimp only at hSymbols hAccepted
    subst hSymbols
    cases fault with
    | none =>
        rw [hAccepted.mp rfl]
        exact hNext symbols
    | some cause =>
        cases fault' with
        | none => cases hAccepted.mpr rfl
        | some cause' => exact ⟨rfl, by simp [Analysed.andThen]⟩

/-- To have the same symbols where both are accepted goes on from statement to
statement. -/
theorem composes_sameSymbols : Composes SameSymbols where
  same _ _ _ := rfl
  refused _ _ _ h _ := by cases h
  andThen := by
    rintro ⟨symbols, fault⟩ ⟨symbols', fault'⟩ next next' hFirst hNext hAccepted hAccepted'
    cases fault with
    | some cause => cases hAccepted
    | none =>
        cases fault' with
        | some cause => cases hAccepted'
        | none =>
            have hSymbols : symbols = symbols' := hFirst rfl rfl
            subst hSymbols
            exact hNext symbols hAccepted hAccepted'

section relating

variable {R : Analysed → Analysed → Prop}

/-- What relates each folded statement to the statement relates the folded
program to the program. The induction is on the statements. -/
theorem analyseAll_relates (hComposes : Composes R) {statements folded : List Node}
    (h : foldAll statements = .ok folded)
    (hEach : ∀ s ∈ statements, ∀ t, fold s = .ok t → ∀ symbols,
      R (analyse symbols t) (analyse symbols s))
    (symbols : Symbols) : R (analyseAll symbols folded) (analyseAll symbols statements) := by
  induction statements generalizing folded symbols with
  | nil =>
      cases h
      exact hComposes.same _
  | cons s rest ih =>
      obtain ⟨first, others, hFirst, hOthers, rfl⟩ := foldAll_cons_inv h
      obtain ⟨hHead, hRest⟩ := List.forall_mem_cons.mp hEach
      rw [analyseAll, analyseAll]
      exact hComposes.andThen (hHead first hFirst symbols) fun between => ih hOthers hRest between

/-- What holds between the analyses of each declaration and its folded form
holds between those of a tree and its folded form. An operation that stands for
itself is refused, and so is the number it is folded to. -/
theorem analyse_relates (hComposes : Composes R) {P : Node → Prop}
    (hInside : ∀ statements, P (.program statements) → ∀ s ∈ statements, P s)
    (hDeclaration : ∀ symbols name type value initial constant,
      P (.declaration name type value constant) →
      fold value = .ok initial → R (analyse symbols (.declaration name type initial constant))
        (analyse symbols (.declaration name type value constant)))
    (n : Node) {folded : Node} (h : fold n = .ok folded) (hP : P n) (symbols : Symbols) :
    R (analyse symbols folded) (analyse symbols n) := by
  obtain rfl | ⟨statements, others, rfl, hAll, rfl⟩ |
      ⟨name, type, value, constant, initial, rfl, hValue, rfl⟩ |
    ⟨left, operator, right, foldedLeft, foldedRight, rfl, -, -, hOperation⟩ := fold_cases h
  · exact hComposes.same _
  · rw [analyse, analyse]
    refine analyseAll_relates hComposes hAll (fun s hs t hFold between => ?_) symbols
    exact analyse_relates hComposes hInside hDeclaration s hFold
      (hInside statements hP s hs) between
  · exact hDeclaration symbols name type value initial constant hP hValue
  · obtain ⟨_, _, _, rfl, rfl, -, rfl⟩ | ⟨-, rfl⟩ := operation_cases hOperation
    · exact hComposes.refused _ _ _
    · exact hComposes.refused _ _ _
termination_by sizeOf n
decreasing_by
  subst_vars
  have hLess := List.sizeOf_lt_of_mem hs
  simp only [Node.program.sizeOf_spec]
  omega

end relating

/-- The analyses of a declaration whose value keeps its type are the same. -/
theorem analyse_declaration_eq {symbols : Symbols} {value initial : Node}
    (h : typeOf symbols initial = typeOf symbols value) (name : String) (type : Option Ty)
    (constant : Bool) :
    analyse symbols (.declaration name type initial constant) =
      analyse symbols (.declaration name type value constant) := by
  rw [analyse, analyse, h]

/-- An accepted declaration enters its name with its declared type, whatever
its value. -/
theorem symbols_of_accepted_declaration {symbols after : Symbols} {name : String} {type : Option Ty}
    {value : Node} {constant : Bool}
    (h : analyse symbols (.declaration name type value constant) = ⟨after, none⟩) :
    after = symbols.set name (.variable (Ty.resolve type)) := by
  cases accepted_of_analyse h with
  | declaration => rfl

/-- A node is accepted after folding exactly if it was before, provided that no
operation that folding carries out changes its type. -/
theorem sameVerdict_of_retains {n folded : Node} (h : fold n = .ok folded)
    (hRetains : RetainsTypes n) (symbols : Symbols) :
    SameVerdict (analyse symbols folded) (analyse symbols n) := by
  refine analyse_relates composes_sameVerdict ?_ ?_ n h hRetains symbols
  · intro statements hStatements s hs operator a b hCarried
    exact hStatements operator a b (.statement hs hCarried)
  · intro symbols name type value initial constant hDeclared hValue
    have hType :=
      typeOf_fold symbols value hValue fun o a b hCarried => hDeclared o a b (.value hCarried)
    rw [analyse_declaration_eq hType]
    exact composes_sameVerdict.same _

/-- Where a node is accepted before and after folding, it leaves the same
symbols: declarations keep their names and their declared types. -/
theorem sameSymbols_of_fold {n folded : Node} (h : fold n = .ok folded) (symbols : Symbols) :
    SameSymbols (analyse symbols folded) (analyse symbols n) := by
  refine analyse_relates composes_sameSymbols (P := fun _ => True) (fun _ _ _ _ => trivial) ?_ n h
    trivial symbols
  intro symbols name type value initial constant _ _ hAccepted hAccepted'
  rw [symbols_of_accepted_declaration (eq_of_fault_eq_none hAccepted),
    symbols_of_accepted_declaration (eq_of_fault_eq_none hAccepted')]

/-! ### Operations that change their type -/

/-- The type of a typed operation on two constants, if its result is of another
type: an integer for a quotient, which is a double, and a truth value for a
comparison, which becomes an integer. -/
theorem types_of_not_retains {operator : String} {a b value : Value}
    (h : retainsType operator a b = false) (hConstant : constant operator a b = .ok value)
    {symbols : Symbols} {type : Option Ty}
    (hType : typeOf symbols (.binary (.number a) operator (.number b)) = .ok type) :
    type = some .int ∧ literalType value = some .float ∨ type = some .bool ∧
      literalType value = some .int := by
  obtain ⟨left, right, meaning, hLeft, hRight, hText, hRule⟩ := typeOf_binary_ok hType
  have hLiteral : literalType a = left := Except.ok.inj hLeft
  have hLiteral' : literalType b = right := Except.ok.inj hRight
  unfold constant at hConstant
  rw [hText] at hConstant
  unfold retainsType at h
  rw [hText, hLiteral, hLiteral', ← isNumeric_literalType, ← isNumeric_literalType, hLiteral,
    hLiteral'] at h
  cases hRule with
  | arithmetic hMeaning hNumeric hNumeric' =>
      rw [hNumeric, hNumeric'] at h
      cases meaning with
      | div =>
          obtain ⟨x, rfl⟩ := isDouble_of_div hConstant
          have hWhole : (isFloat left || isFloat right) = false := h
          rw [hWhole]
          exact .inl ⟨rfl, rfl⟩
      | add | sub | mul => cases h
      | _ => exact absurd hMeaning (by decide)
  | logical hMeaning => exact absurd hLiteral (literalType_ne_bool a)
  | comparison hMeaning hAccepts =>
      have hTruth : ∃ truth, value = .bool truth := by
        cases meaning with
        | eq | ne =>
            cases hConstant
            exact ⟨_, rfl⟩
        | lt | gt | le | ge => exact exists_of_comparison a b hConstant
        | _ => exact absurd hMeaning (by decide)
      obtain ⟨truth, rfl⟩ := hTruth
      exact .inr ⟨rfl, rfl⟩
  | assignment hTarget hDeclared hAccepts => cases hTarget

/-- An operation that is folded to a literal of another type is judged in
another way than the literal, as the value of a declaration without a type or
of an integer. -/
theorem not_sameVerdict_constant {operator : String} {a b value : Value}
    (h : retainsType operator a b = false) (hConstant : constant operator a b = .ok value)
    {symbols : Symbols} {name : String} (hFresh : symbols.contains name = false)
    (isConstant : Bool) :
    ∃ type, ¬ SameVerdict (analyse symbols (.declaration name type (.number value) isConstant))
      (analyse symbols (.declaration name type (.binary (.number a) operator (.number b))
        isConstant)) := by
  have hLiteral : typeOf symbols (.number value) = .ok (literalType value) := rfl
  cases hType : typeOf symbols (.binary (.number a) operator (.number b)) with
  | error cause =>
      refine ⟨none, fun hSame => ?_⟩
      rw [analyse_declaration_of_typeOf hFresh hLiteral,
        analyse_declaration_of_error hFresh hType] at hSame
      cases hSame.accepted.mp rfl
  | ok type =>
      refine ⟨some .int, fun hSame => ?_⟩
      rw [analyse_declaration_of_typeOf hFresh hLiteral,
        analyse_declaration_of_typeOf hFresh hType] at hSame
      obtain ⟨rfl, hDouble⟩ | ⟨rfl, hWhole⟩ := types_of_not_retains h hConstant hType
      · rw [hDouble] at hSame
        cases hSame.accepted.mpr rfl
      · rw [hWhole] at hSame
        cases hSame.accepted.mp rfl

/-- A tree whose folding retains types is accepted or refused as before, with
the same symbols. Whatever is folded, if the tree is accepted before and after,
the symbols are the same. An operation that does not retain its type cannot be
added: some declaration of it is judged in another way. -/
theorem analyse_fold {n folded : Node} (h : fold n = .ok folded) (symbols : Symbols) :
    (RetainsTypes n → SameVerdict (analyse symbols folded) (analyse symbols n)) ∧
    ((analyse symbols folded).fault = none → (analyse symbols n).fault = none →
      (analyse symbols folded).symbols = (analyse symbols n).symbols) ∧
    ∀ operator a b value, constant operator a b = .ok value →
      retainsType operator a b = false →
      ∀ name isConstant, symbols.contains name = false →
        ∃ type,
          ¬ SameVerdict (analyse symbols (.declaration name type (.number value) isConstant))
          (analyse symbols (.declaration name type (.binary (.number a) operator (.number b))
            isConstant)) :=
  ⟨fun hRetains => sameVerdict_of_retains h hRetains symbols, sameSymbols_of_fold h symbols,
    fun _ _ _ _ hConstant hChanges _ isConstant hFresh =>
      not_sameVerdict_constant hChanges hConstant hFresh isConstant⟩

/-- A product and a difference are folded, in a script that is accepted. -/
def arithmeticScript : Node := .program
  [.declaration "x" (some .int) (.binary (.number (.int 2)) "*" (.number (.int 3))) false,
    .declaration "y" (some .float)
      (.binary (.identifier "x") "+" (.binary (.number (.int 4)) "-" (.number (.int 1)))) false]

def arithmeticFolded : Node := .program
  [.declaration "x" (some .int) (.number (.int 6)) false,
    .declaration "y" (some .float) (.binary (.identifier "x") "+" (.number (.int 3))) false]

/-- Folding carries out a product and a difference of integers in the script,
and nothing else. -/
theorem retainsTypes_arithmeticScript : RetainsTypes arithmeticScript := by
  intro operator a b hCarried
  cases hCarried with
  | statement among inside =>
      simp only [List.mem_cons, List.not_mem_nil, or_false] at among
      rcases among with rfl | rfl
      · cases inside with
        | value product =>
            cases product with
            | here first second =>
                cases first
                cases second
                rfl
            | left inside => cases inside
            | right inside => cases inside
      · cases inside with
        | value sum =>
            cases sum with
            | here first second => cases first
            | left inside => cases inside
            | right difference =>
                cases difference with
                | here first second =>
                    cases first
                    cases second
                    rfl
                | left inside => cases inside
                | right inside => cases inside

/-- The script is accepted, and so is its folded form, with the same
symbols. -/
theorem analyse_fold_arithmetic :
    fold arithmeticScript = .ok arithmeticFolded ∧
      (analyse .empty arithmeticScript).fault = none ∧
      SameVerdict (analyse .empty arithmeticFolded) (analyse .empty arithmeticScript) := by
  have hFold : fold arithmeticScript = .ok arithmeticFolded := rfl
  exact ⟨hFold, rfl, (analyse_fold hFold .empty).1 retainsTypes_arithmeticScript⟩

/-- A comparison is accepted as a truth value and refused as an integer.
Folded, it is refused as a truth value and accepted as an integer. -/
theorem analyse_fold_comparison :
    let script (type : Ty) : Node :=
      .program [.declaration "x" (some type)
        (.binary (.number (.int 1)) "<" (.number (.int 2))) false]
    let folded (type : Ty) : Node :=
      .program [.declaration "x" (some type) (.number (.bool true)) false]
    (∀ type, fold (script type) = .ok (folded type)) ∧
      ((analyse .empty (script .bool)).fault = none ∧
        (analyse .empty (folded .bool)).fault =
          some (.analysis (.declarationMismatch "x" (some .bool) (some .int)))) ∧
      (analyse .empty (script .int)).fault =
        some (.analysis (.declarationMismatch "x" (some .int) (some .bool))) ∧
        (analyse .empty (folded .int)).fault = none := by
  intro script folded
  exact ⟨fun _ => rfl, ⟨rfl, rfl⟩, rfl, rfl⟩

end PageScript.Fold
