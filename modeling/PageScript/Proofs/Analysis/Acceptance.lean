import PageScript.Proofs.Analysis.Typing

/-! What an accepted statement is. Everything that an analysis without a fault
rests on is said once, statement by statement, with the table of symbols it
leaves behind. -/
namespace PageScript.Analysis

/-- The ways in which a statement is accepted, and the symbols known
afterwards. -/
inductive Accepted (symbols : Symbols) : Node → Symbols → Prop where
  | program {statements : List Node} {after : Symbols}
      (all : analyseAll symbols statements = ⟨after, none⟩) :
      Accepted symbols (.program statements) after
  | declaration {name : String} {type actual : Option Ty} {value : Node} {constant : Bool}
      (fresh : symbols.contains name = false) (typed : typeOf symbols value = .ok actual)
      (fits : (Ty.resolve type).isSome = true → Ty.accepts (Ty.resolve type) actual = true) :
      Accepted symbols (.declaration name type value constant)
        (symbols.set name (.variable (Ty.resolve type)))
  | function {name : String} {parameters : List Parameter} {result : Option Ty} {body : Node}
      {async : Bool}
      {after : Symbols} (fresh : symbols.contains name = false)
      (inside : analyseBlock (declareFunction symbols name parameters result) body =
        ⟨after, none⟩) :
      Accepted symbols (.functionDeclaration name parameters result body async) after
  | returnNothing : Accepted symbols (.returnStatement .missing) symbols
  | returnValue {value : Node} {type : Option Ty} (typed : typeOf symbols value = .ok type) :
      Accepted symbols (.returnStatement value) symbols
  | shown {value : Node} {type : Option Ty} (typed : typeOf symbols value = .ok type) :
      Accepted symbols (.showStatement value) symbols
  | branch {condition thenBlock : Node} {after : Symbols}
      (typed : typeOf symbols condition = .ok (some .bool))
      (inside : analyseBlock symbols thenBlock = ⟨after, none⟩) :
      Accepted symbols (.ifStatement condition thenBlock .missing) after
  | branches {condition thenBlock elseBlock : Node} {between after : Symbols}
      (typed : typeOf symbols condition = .ok (some .bool))
      (inside : analyseBlock symbols thenBlock = ⟨between, none⟩)
      (otherwise : analyseBlock between elseBlock = ⟨after, none⟩) :
      Accepted symbols (.ifStatement condition thenBlock elseBlock) after
  | loop {condition body : Node} {after : Symbols}
      (typed : typeOf symbols condition = .ok (some .bool))
      (inside : analyseBlock symbols body = ⟨after, none⟩) :
      Accepted symbols (.whileStatement condition body) after
  | forEach {iterator : String} {iterable body : Node} {type : Option Ty} {after : Symbols}
      (typed : typeOf symbols iterable = .ok type)
      (inside : analyseBlock symbols body = ⟨after, none⟩) :
      Accepted symbols (.forStatement iterator iterable body) after

section inversion

variable {symbols after : Symbols}

/-- What is done with the type of an expression ends well only if there is a
type, and then it ends well with that type. -/
theorem withType_ok {result : Except Fault (Option Ty)} {next : Option Ty → Analysed}
    (h : Analysed.withType symbols result next = ⟨after, none⟩) :
    ∃ type, result = .ok type ∧ next type = ⟨after, none⟩ := by
  cases result with
  | error fault => cases h
  | ok type => exact ⟨type, rfl, h⟩

/-- Two analyses in a row end well only if both do, the second from the table
that the first one leaves behind. -/
theorem andThen_ok {first : Analysed} {next : Symbols → Analysed}
    (h : first.andThen next = ⟨after, none⟩) :
    ∃ between, first = ⟨between, none⟩ ∧ next between = ⟨after, none⟩ := by
  obtain ⟨between, fault⟩ := first
  cases fault with
  | some fault => cases h
  | none => exact ⟨between, rfl, h⟩

/-- A condition must be a truth value. -/
theorem condition_ok {type : Option Ty} {refused : Fault} {next : Analysed}
    (h : (if !isBool type then ⟨symbols, some refused⟩ else next) =
      (⟨after, none⟩ : Analysed)) :
    type = some .bool ∧ next = ⟨after, none⟩ := by
  cases hBool : isBool type with
  | false =>
      rw [hBool] at h
      cases h
  | true =>
      rw [hBool] at h
      exact ⟨eq_bool_of_isBool hBool, h⟩

/-- A variable is entered under its own type if it has one. The type of the
value is compared with it, and with nothing if the declaration leaves the type
open. -/
theorem declare_ok {name : String} {type actual : Option Ty}
    (h : declare symbols name type actual = ⟨after, none⟩) :
    ((Ty.resolve type).isSome = true → Ty.accepts (Ty.resolve type) actual = true) ∧
      after = symbols.set name (.variable (Ty.resolve type)) := by
  unfold declare at h
  dsimp only at h
  split at h
  · cases h
  · rename_i hFits
    cases h
    exact ⟨by simpa using hFits, rfl⟩

/-- All that an accepted statement rests on. One case for each sort of
statement; later proofs take the cases from here and do not open the analysis
again. -/
theorem accepted_of_analyse {s : Node} (h : analyse symbols s = ⟨after, none⟩) :
    Accepted symbols s after := by
  cases s with
  | program statements =>
      rw [analyse] at h
      exact .program h
  | declaration name type value constant =>
      rw [analyse] at h
      cases hFresh : symbols.contains name with
      | true =>
          rw [hFresh] at h
          cases h
      | false =>
          rw [hFresh] at h
          obtain ⟨actual, hValue, h⟩ := withType_ok h
          obtain ⟨hFits, rfl⟩ := declare_ok h
          exact .declaration hFresh hValue hFits
  | functionDeclaration name parameters result body async =>
      rw [analyse] at h
      cases hFresh : symbols.contains name with
      | true =>
          rw [hFresh] at h
          cases h
      | false =>
          rw [hFresh] at h
          exact .function hFresh h
  | returnStatement value =>
      by_cases hMissing : value = .missing
      · subst hMissing
        rw [analyse] at h
        cases h
        exact .returnNothing
      · rw [analyse] at h
        · obtain ⟨type, hValue, h⟩ := withType_ok h
          cases h
          exact .returnValue hValue
        · exact hMissing
  | showStatement value =>
      rw [analyse] at h
      obtain ⟨type, hValue, h⟩ := withType_ok h
      cases h
      exact .shown hValue
  | ifStatement condition thenBlock elseBlock =>
      rw [analyse] at h
      obtain ⟨type, hCondition, h⟩ := withType_ok h
      obtain ⟨rfl, hBlocks⟩ := condition_ok h
      obtain ⟨between, hThen, hElse⟩ := andThen_ok hBlocks
      by_cases hMissing : elseBlock = .missing
      · subst hMissing
        cases hElse
        exact .branch hCondition hThen
      · refine .branches hCondition hThen ?_
        cases elseBlock with
        | missing => exact absurd rfl hMissing
        | _ => exact hElse
  | whileStatement condition body =>
      rw [analyse] at h
      obtain ⟨type, hCondition, h⟩ := withType_ok h
      obtain ⟨rfl, hBody⟩ := condition_ok h
      exact .loop hCondition hBody
  | forStatement iterator iterable body =>
      rw [analyse] at h
      obtain ⟨type, hIterable, h⟩ := withType_ok h
      exact .forEach hIterable h
  | _ =>
      simp only [analyse] at h
      cases h

/-- A list of statements is accepted only if the first is, and the others from
the table that it leaves behind. -/
theorem analyseAll_cons_ok {s : Node} {rest : List Node}
    (h : analyseAll symbols (s :: rest) = ⟨after, none⟩) :
    ∃ between, analyse symbols s = ⟨between, none⟩ ∧
      analyseAll between rest = ⟨after, none⟩ := by
  rw [analyseAll] at h
  exact andThen_ok h

theorem eq_of_fault_eq_none {x : Analysed} (h : x.fault = none) : x = ⟨x.symbols, none⟩ := by
  cases x
  cases h
  rfl

end inversion

/-! ### Declarations of unknown names -/

/-- A new name is refused only for its type: the declaration has one, and it
does not accept that of the value. -/
theorem fault_declare_eq_none_iff {symbols : Symbols} {name : String} {type actual : Option Ty} :
    (declare symbols name type actual).fault = none ↔
      ((Ty.resolve type).isSome = true → Ty.accepts (Ty.resolve type) actual = true) := by
  unfold declare
  dsimp only
  split
  · rename_i hMismatch
    simpa using hMismatch
  · rename_i hFits
    simpa using hFits

/-- A declaration of an unknown name, with a value of this type. -/
theorem analyse_declaration_of_typeOf {symbols : Symbols} {name : String}
    (hFresh : symbols.contains name = false) {value : Node} {actual : Option Ty}
    (h : typeOf symbols value = .ok actual) (type : Option Ty) (constant : Bool) :
    analyse symbols (.declaration name type value constant) = declare symbols name type actual := by
  rw [analyse, hFresh, h]
  rfl

/-- A declaration of a new name has the fault of its value, and then enters
nothing into the table. -/
theorem analyse_declaration_of_error {symbols : Symbols} {name : String}
    (hFresh : symbols.contains name = false) {value : Node} {cause : Fault}
    (h : typeOf symbols value = .error cause) (type : Option Ty) (constant : Bool) :
    analyse symbols (.declaration name type value constant) = ⟨symbols, some cause⟩ := by
  rw [analyse, hFresh, h]
  rfl

end PageScript.Analysis
