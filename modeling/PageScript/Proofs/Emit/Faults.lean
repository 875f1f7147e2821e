import PageScript.Proofs.Instruction.Lowering
import PageScript.Proofs.Parse.Provenance

/-! Where emission fails. Every expression that a script can write has a text,
and every statement that analysis accepts is emitted, except that a type with
arguments has no name. Main statement: a script that is parsed and accepted is
compiled exactly if it declares nothing of such a type, and else this is the
fault. -/
namespace PageScript.Emit

open Progress
open Analysis (Symbols analyse analyseAll accepted_of_analyse analyseAll_cons_ok)

/-! ### Faults -/

/-- The fault that ends a computation. -/
def faultOf {α : Type} : Except Fault α → Option Fault
  | .ok _ => none
  | .error fault => some fault

section faults

variable {α β γ : Type}

/-- What is done with a result when there is one does not change its fault. -/
theorem faultOf_bind_pure (result : Except Fault α) (f : α → β) :
    faultOf (do let a ← result; return f a) = faultOf result := by
  cases result <;> rfl

/-- Two independent computations end with the first fault. -/
theorem faultOf_bind_bind_pure (first : Except Fault α) (second : Except Fault β)
    (f : α → β → γ) :
    faultOf (do let a ← first; let b ← second; return f a b) =
      (faultOf first).or (faultOf second) := by
  cases first with
  | error cause => rfl
  | ok a => exact faultOf_bind_pure second (f a)

theorem fault_withResult_one (result : Except Fault String) :
    (withResult result one).fault = faultOf result := by
  cases result <;> rfl

/-- A statement in braces has the fault of its opening line, or else that of
its body. -/
theorem fault_braced (opening : Except Fault String) (body : Unit → Progress String) :
    (braced opening body).fault = (faultOf opening).or (body ()).fault := by
  simp [braced, fault_withResult_one]

theorem faultOf_eq_none_iff {result : Except Fault α} :
    faultOf result = none ↔ ∃ a, result = .ok a := by
  cases result <;> simp [faultOf]

end faults

theorem faultOf_lineOf (before : String) (n : Node) (after : String) :
    faultOf (lineOf before n after) = faultOf (expression n) := by
  rw [lineOf, faultOf_bind_pure]

theorem faultOf_declaration (name : String) (type : Option Ty) (value : Node) (constant : Bool) :
    faultOf (declaration name type value constant) =
      (faultOf (typeName type)).or (faultOf (expression value)) := by
  rw [declaration, faultOf_bind_bind_pure]

/-- The head of a function is at fault for its result type, or else for its
parameters. -/
theorem faultOf_functionHead (name : String) (parameters : List Parameter) (result : Option Ty)
    (async : Bool) :
    faultOf (functionHead name parameters result async) =
      (faultOf (typeName result)).or (faultOf (parameterList parameters)) := by
  rw [functionHead, faultOf_bind_bind_pure]

/-! ### Expressions -/

theorem expressions_ok {ns : List Node} (h : ∀ n ∈ ns, ∃ text, expression n = .ok text) :
    ∃ texts, expressions ns = .ok texts := by
  induction ns with
  | nil => exact ⟨[], rfl⟩
  | cons n rest ih =>
      obtain ⟨text, hText⟩ := h n (.head _)
      obtain ⟨texts, hTexts⟩ := ih fun m hm => h m (.tail _ hm)
      exact ⟨text :: texts, by rw [expressions, hText, hTexts]; rfl⟩

/-- Every expression that a script can write has a text. Numbers are the only
leaves whose text can fail, and those of a script are short enough. -/
theorem expression_ok {n : Node} (h : IsExpression n) : ∃ text, expression n = .ok text := by
  induction h with
  | number numeral =>
      cases numeral with
      | int short =>
          obtain ⟨text, hText⟩ := writeInt_ok short
          have hWrite : Value.write (.int _) = .ok text := hText
          exact ⟨text, by rw [expression, hWrite]; rfl⟩
      | float x => exact ⟨_, rfl⟩
  | string | bool | identifier => exact ⟨_, rfl⟩
  | assignment _ _ _ ih =>
      obtain ⟨text, hText⟩ := ih
      exact ⟨_, by rw [expression, expression, hText]; rfl⟩
  | binary _ _ _ ihLeft ihRight =>
      obtain ⟨l, hLeft⟩ := ihLeft
      obtain ⟨r, hRight⟩ := ihRight
      exact ⟨_, by rw [expression, hLeft, hRight]; rfl⟩
  | negation _ ih | await _ ih | member _ _ ih =>
      obtain ⟨text, hText⟩ := ih
      exact ⟨_, by rw [expression, hText]; rfl⟩
  | call _ _ ihFunction ihArguments =>
      obtain ⟨f, hFunction⟩ := ihFunction
      obtain ⟨texts, hArguments⟩ := expressions_ok ihArguments
      exact ⟨_, by rw [expression, hFunction, hArguments]; rfl⟩

theorem faultOf_expression {n : Node} (h : IsExpression n) : faultOf (expression n) = none :=
  faultOf_eq_none_iff.mpr (expression_ok h)

/-! ### Types -/

/-- A type with arguments. -/
def isGeneric : Ty → Bool
  | .generic _ _ => true
  | _ => false

/-- What emission fails with on a type with arguments. -/
def genericFault : Fault := .shape (.noField "TypeNode" "generic_args")

/-- The fault of something that uses types with arguments, or does not. -/
def blame (generic : Bool) : Option Fault :=
  if generic then some genericFault else none

@[simp] theorem blame_or (a b : Bool) : (blame a).or (blame b) = blame (a || b) := by
  cases a <;> rfl

/-- Of the types that a script can write only those with arguments have no
name. -/
theorem faultOf_typeName {type : Option Ty} (h : ∀ t ∈ type, t.IsWritten) :
    faultOf (typeName type) = blame (type.toList.any isGeneric) := by
  cases type with
  | none => rfl
  | some t => cases h t rfl <;> rfl

/-- A parameter list is at fault exactly if some parameter has a type with
arguments. -/
theorem faultOf_parameterList {parameters : List Parameter}
    (h : ∀ p ∈ parameters, ∃ t, p.type = some t ∧ t.IsWritten) :
    faultOf (parameterList parameters) =
      blame ((parameters.flatMap fun p => p.type.toList).any isGeneric) := by
  rw [parameterList, faultOf_bind_pure]
  induction parameters with
  | nil => rfl
  | cons p rest ih =>
      have hType : faultOf (typeName p.type) = blame (p.type.toList.any isGeneric) := by
        obtain ⟨t, hSome, hWritten⟩ := h p (.head _)
        rw [hSome]
        exact faultOf_typeName (Build.isWritten_of_mem_some hWritten)
      have hRest := ih fun q hq => h q (.tail _ hq)
      rw [List.mapM_cons, faultOf_bind_bind_pure, faultOf_bind_pure, hType, hRest, blame_or,
        List.flatMap_cons, List.any_append]

mutual

/-- The types that are declared for variables, parameters and results anywhere
in a script. -/
def declaredTypes : Node → List Ty
  | .program statements => declaredTypesAll statements
  | .block statements => declaredTypesAll statements
  | .declaration _ type _ _ => type.toList
  | .functionDeclaration _ parameters result body _ =>
    result.toList ++ (parameters.flatMap fun p => p.type.toList) ++ declaredTypes body
  | .ifStatement _ thenBlock elseBlock => declaredTypes thenBlock ++ declaredTypes elseBlock
  | .whileStatement _ body => declaredTypes body
  | .forStatement _ _ body => declaredTypes body
  | _ => []

def declaredTypesAll : List Node → List Ty
  | [] => []
  | s :: rest => declaredTypes s ++ declaredTypesAll rest

end

/-! ### Statements -/

/-- Emission of a statement fails exactly if the statement declares a type with
arguments. -/
def FailsOnGeneric (s : Node) : Prop :=
  (emit s).fault = blame ((declaredTypes s).any isGeneric)

/-- Accepted statements one after the other. -/
theorem fault_emitAll {statements : List Node} {symbols after : Symbols}
    (hEach : ∀ s ∈ statements, ∀ symbols after, analyse symbols s = ⟨after, none⟩ →
      FailsOnGeneric s)
    (h : analyseAll symbols statements = ⟨after, none⟩) :
    (emitAll statements).fault = blame ((declaredTypesAll statements).any isGeneric) := by
  induction statements generalizing symbols with
  | nil => rfl
  | cons s rest ih =>
      obtain ⟨between, hFirst, hRest⟩ := analyseAll_cons_ok h
      have hs : (emit s).fault = _ := hEach s (.head _) symbols between hFirst
      have hOthers := ih (fun s hs => hEach s (.tail _ hs)) hRest
      rw [emitAll, fault_andThen, hs, hOthers, blame_or, declaredTypesAll, List.any_append]

/-- A block behind a line with an expression that a script can write. -/
theorem fault_braced_block {before after : String} {condition : Node} (h : IsExpression condition)
    (inside : List Node) :
    (braced (lineOf before condition after) fun _ => emitBlock (.block inside)).fault =
      (emitAll inside).fault := by
  rw [fault_braced, faultOf_lineOf, faultOf_expression h, Option.none_or, emitBlock]

/-- An operation has no type, so no script that holds one is accepted. -/
theorem typeOf_of_isOperation {symbols : Symbols} {value : Node} (h : IsOperation value)
    (type : Option Ty) :
    Analysis.typeOf symbols value ≠ .ok type := by
  cases h <;> simp [Analysis.typeOf]

/-- A statement that a script can write and that is accepted is emitted, unless
it declares a type with arguments. Analysis has refused the statements that
cannot be emitted at all, so what is left to fail is the name of a type. -/
theorem failsOnGeneric_of_accepted {s : Node} (hs : IsStatement s) (symbols after : Symbols)
    (h : analyse symbols s = ⟨after, none⟩) : FailsOnGeneric s := by
  unfold FailsOnGeneric
  induction hs generalizing symbols after with
  | declaration written valued =>
      rw [emit, fault_withResult_one, faultOf_declaration, faultOf_typeName written,
        faultOf_expression valued, Option.or_none, declaredTypes]
  | operation valued =>
      cases accepted_of_analyse h with
      | declaration _ typed _ => exact absurd typed (typeOf_of_isOperation valued _)
  | shown valued => rw [emit, fault_withResult_one, faultOf_lineOf, faultOf_expression valued]; rfl
  | returned valued =>
      rw [emit, fault_withResult_one, faultOf_lineOf, faultOf_expression valued]
      · rfl
      · rintro rfl
        cases valued
  | returnNothing => rfl
  | branch valued _ ih =>
      cases accepted_of_analyse h with
      | branch _ inside =>
          rw [emit, fault_andThen, fault_braced_block valued, fault_emitAll ih inside,
            fault_nothing, Option.or_none]
          simp [declaredTypes]
      | branches _ _ otherwise => cases otherwise
  | branches valued _ _ ihInside ihOthers =>
      cases accepted_of_analyse h with
      | branches _ inside otherwise =>
          rw [emit]
          · rw [fault_andThen, fault_braced_block valued, fault_emitAll ihInside inside,
              fault_braced, emitBlock, fault_emitAll ihOthers otherwise]
            simp [declaredTypes, faultOf]
          · rintro ⟨⟩
  | loop valued _ ih =>
      cases accepted_of_analyse h with
      | loop _ inside =>
          rw [emit, fault_braced_block valued, fault_emitAll ih inside, declaredTypes,
            declaredTypes]
  | forEach valued _ ih =>
      cases accepted_of_analyse h with
      | forEach _ inside =>
          rw [emit, fault_braced_block valued, fault_emitAll ih inside, declaredTypes,
            declaredTypes]
  | function typed written _ _ ih =>
      cases accepted_of_analyse h with
      | function _ inside =>
          rw [emit, fault_braced, faultOf_functionHead,
            faultOf_typeName (Build.isWritten_of_mem_some written), faultOf_parameterList typed,
            emitBlock, fault_emitAll ih inside, blame_or, blame_or, declaredTypes, List.any_append,
            List.any_append, declaredTypes]
  | _ => cases accepted_of_analyse h

/-! ### Whole scripts -/

section scripts

variable {source : String} {root : Node}

/-- A parsed and accepted script is emitted, unless it declares something of a
type with arguments. -/
theorem fault_emit_of_parsed (hParse : (Parse.parse .refuse source).tree = .ok root)
    (hAccepted : (analyse .empty root).fault = none) :
    (emit root).fault = blame ((declaredTypes root).any isGeneric) := by
  have hAnalyse : analyse .empty root = ⟨(analyse .empty root).symbols, none⟩ := by
    rw [← hAccepted]
  rcases Parse.formed_of_tree hParse with rfl | ⟨ns, rfl, hStatements⟩
  · cases hAccepted
  · cases accepted_of_analyse hAnalyse with
    | program all =>
        rw [emit, declaredTypes]
        exact fault_emitAll (fun s hs => failsOnGeneric_of_accepted (hStatements s hs)) all

/-- Whether an accepted script is compiled depends on emission alone. -/
theorem compile_of_accepted (hAccepted : (analyse .empty root).fault = none) :
    (Compiler.fresh.compile root).2 =
      (emit root).fault.elim (.ok (joinLines (emit root).produced)) .error := by
  have hAnalyse : analyse .empty root = ⟨(analyse .empty root).symbols, none⟩ := by
    rw [← hAccepted]
  obtain ⟨is, hLower⟩ := Instruction.lower_of_analyse root hAnalyse
  rw [Instruction.compile_of_lower (c := .fresh) hAccepted hLower]
  rfl

/-- What is checked of a tree holds of a tree that there is. -/
theorem exists_of_any {tree : Except Fault Node} {good : Node → Bool}
    (h : tree.toOption.any good = true) :
    ∃ root, tree = .ok root ∧ good root = true := by
  cases tree with
  | error fault => cases h
  | ok root => exact ⟨root, rfl, h⟩

end scripts

/-- A script that is parsed and accepted is emitted, and compiled to its text,
exactly if no variable, parameter or result in it is declared with a type that
has arguments. Otherwise both fail because such a type has no name. -/
theorem compile_parsed (source : String) (root : Node)
    (hParse : (Parse.parse .refuse source).tree = .ok root)
    (hAccepted : (analyse .empty root).fault = none) :
    (emit root).fault = (if (declaredTypes root).any isGeneric then some genericFault else none) ∧
      (Compiler.fresh.compile root).2 =
        if (declaredTypes root).any isGeneric then .error genericFault
        else .ok (joinLines (emit root).produced) := by
  have hFault := fault_emit_of_parsed hParse hAccepted
  refine ⟨hFault, ?_⟩
  rw [compile_of_accepted hAccepted, hFault]
  cases (declaredTypes root).any isGeneric <;> rfl

/-- A function that calls itself inside a loop. -/
def loopingScript : String :=
  "function f(p:Box, n:int):int \\\\ while (n < 3) \\\\ return f(p, n) \\\\ \\\\ \\\\"

/-- A function with a loop in its body, whose parameters are of plain types, is
compiled. -/
theorem compile_parsed_loopingScript :
    ∃ root, (Parse.parse .refuse loopingScript).tree = .ok root ∧
    (analyse .empty root).fault = none ∧ (emit root).fault = none ∧
    (Compiler.fresh.compile root).2 = .ok (joinLines (emit root).produced) := by
  have hChecked : ((Parse.parse .refuse loopingScript).tree.toOption.any fun root =>
      (analyse .empty root).fault.isNone && !(declaredTypes root).any isGeneric) = true := by
        decide +kernel
  obtain ⟨root, hParse, hRoot⟩ := exists_of_any hChecked
  rw [Bool.and_eq_true, Option.isNone_iff_eq_none, Bool.not_eq_true'] at hRoot
  obtain ⟨hAccepted, hPlain⟩ := hRoot
  have hCompiled := compile_parsed loopingScript root hParse hAccepted
  rw [hPlain] at hCompiled
  exact ⟨root, hParse, hAccepted, hCompiled⟩

/-- A function whose parameter is a list of numbers. -/
def genericScript : String :=
  "function f(p: List<int>): int \\\\ return 1\\\\ \\\\"

/-- The script is parsed and accepted, and it is not compiled. -/
theorem compile_genericScript : ∃ root, (Parse.parse .refuse genericScript).tree = .ok root ∧
    (analyse .empty root).fault = none ∧ (emit root).fault = some genericFault ∧
    (Compiler.fresh.compile root).2 = .error genericFault := by
  have hChecked : ((Parse.parse .refuse genericScript).tree.toOption.any fun root =>
      (analyse .empty root).fault.isNone && (declaredTypes root).any isGeneric) = true := by
        decide +kernel
  obtain ⟨root, hParse, hRoot⟩ := exists_of_any hChecked
  rw [Bool.and_eq_true, Option.isNone_iff_eq_none] at hRoot
  obtain ⟨hAccepted, hGeneric⟩ := hRoot
  have hFault : (emit root).fault = some genericFault := by
    rw [fault_emit_of_parsed hParse hAccepted, hGeneric]
    rfl
  refine ⟨root, hParse, hAccepted, hFault, ?_⟩
  rw [compile_of_accepted hAccepted, hFault]
  rfl

end PageScript.Emit
