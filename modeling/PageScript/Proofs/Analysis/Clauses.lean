import PageScript.Proofs.Analysis.Locality

/-! A script as analysis goes through it. All blocks share one table, so the
blocks leave no trace: a script is a list of clauses in the order of its text,
and analysis checks one clause after the other. Main statement: analysing a
script and checking its clauses is the same, whether it ends well or not. -/
namespace PageScript

namespace Table

variable {α : Type}

/-- A name among some entries is found in them, whichever entry of that name is
the last. -/
theorem exists_lookup_of_mem {entries : List (String × α)} {name : String}
    (h : name ∈ entries.map Prod.fst) :
    ∃ value, entries.reverse.lookup name = some value := by
  cases hLookup : entries.reverse.lookup name with
  | some value => exact ⟨value, rfl⟩
  | none =>
      obtain ⟨entry, hEntry, rfl⟩ := List.mem_map.mp h
      have hNot := List.lookup_eq_none_iff.mp hLookup entry (List.mem_reverse.mpr hEntry)
      simp at hNot

theorem contains_eq_false_iff {t : Table α} {name : String} :
    t.contains name = false ↔ t.get? name = none := by
  rw [contains, Option.isSome_eq_false_iff, Option.isNone_iff_eq_none]

/-- A name that is known stays known. -/
theorem get?_eq_none_of_update {t : Table α} {entries : List (String × α)} {name : String}
    (h : (t.update ⟨entries⟩).get? name = none) :
    t.get? name = none ∧ name ∉ entries.map Prod.fst := by
  rw [get?_update, Option.or_eq_none_iff] at h
  refine ⟨h.2, fun hMember => ?_⟩
  obtain ⟨value, hValue⟩ := exists_lookup_of_mem hMember
  rw [hValue] at h
  cases h.1

end Table

namespace Analysis

open Analysed

/-- What a name in an expression stands for. -/
inductive Use where
  | value (name : String)
  | callee (name : String)
  deriving DecidableEq

namespace Use

def name : Use → String
  | value name => name
  | callee name => name

/-- A value is used of a variable, and a function is called. -/
def Fits : Use → Option Declared → Prop
  | value _, some (.variable _) => True
  | callee _, some (.function _ _) => True
  | _, _ => False

end Use

mutual

/-- The names in an expression that analysis looks at, from left to right. It
looks neither into the operand of an await nor at the member of an access. -/
def uses : Node → List Use
  | .identifier name => [.value name]
  | .binary left _ right => uses left ++ uses right
  | .unary _ operand => uses operand
  | .call function arguments =>
    (match function with
      | .identifier name => [.callee name]
      | other => uses other) ++ usesAll arguments
  | .member object _ => uses object
  | .memberNode object _ => uses object
  | _ => []

def usesAll : List Node → List Use
  | [] => []
  | e :: rest => uses e ++ usesAll rest

end

/-- The part of a statement that is checked by itself. -/
inductive Clause where
  | declaration (name : String) (type : Option Ty) (value : Node)
  | function (name : String) (parameters : List Parameter) (result : Option Ty)
  | condition (statement : String) (value : Node)
  /-- A value that is shown, returned or looped over. -/
  | value (value : Node)
  /-- Something that analysis has no rule for. -/
  | refused (fault : Fault)

namespace Clause

/-- The name of a variable or a function that the clause declares. -/
def declares : Clause → List String
  | .declaration name _ _ => [name]
  | .function name _ _ => [name]
  | _ => []

def parameters : Clause → List Parameter
  | .function _ parameters _ => parameters
  | _ => []

/-- What the clause enters into the table: a function enters its parameters
first. -/
def bindings : Clause → List (String × Declared)
  | .declaration name type _ => [(name, .variable (Ty.resolve type))]
  | .function name parameters result => (functionEntries name parameters result).entries
  | _ => []

/-- The expression that is analysed. -/
def expression? : Clause → Option Node
  | .declaration _ _ e => some e
  | .condition _ e => some e
  | .value e => some e
  | _ => none

/-- The names in the expression that is analysed. -/
def uses (clause : Clause) : List Use :=
  (clause.expression?.map Analysis.uses).getD []

/-- Check one clause. -/
def analyse (symbols : Symbols) : Clause → Analysed
  | .declaration name type e =>
    if symbols.contains name then ⟨symbols, some (.analysis (.variableRedeclared name))⟩
    else withType symbols (typeOf symbols e) fun actual => declare symbols name type actual
  | .function name parameters result =>
    if symbols.contains name then ⟨symbols, some (.analysis (.functionRedeclared name))⟩
    else ⟨declareFunction symbols name parameters result, none⟩
  | .condition statement e =>
    withType symbols (typeOf symbols e) fun t =>
      if !isBool t then ⟨symbols, some (.analysis (.conditionNotBool statement))⟩ else
        ⟨symbols, none⟩
  | .value e => withType symbols (typeOf symbols e) fun _ => ⟨symbols, none⟩
  | .refused fault => ⟨symbols, some fault⟩

end Clause

/-- Check clauses in order, up to the first fault. -/
def analyseClauses (symbols : Symbols) : List Clause → Analysed
  | [] => ⟨symbols, none⟩
  | clause :: rest => (clause.analyse symbols).andThen fun symbols => analyseClauses symbols rest

mutual

/-- The clauses of a statement, in the order of the text. -/
def clauses : Node → List Clause
  | .program statements => clausesAll statements
  | .declaration name type value _ => [.declaration name type value]
  | .functionDeclaration name parameters result body _ =>
    .function name parameters result :: blockClauses body
  | .returnStatement .missing => []
  | .returnStatement value => [.value value]
  | .showStatement value => [.value value]
  | .ifStatement condition thenBlock elseBlock =>
    .condition "if" condition :: (blockClauses thenBlock ++
      match elseBlock with
      | .missing => []
      | elseBlock => blockClauses elseBlock)
  | .whileStatement condition body => .condition "while" condition :: blockClauses body
  | .forStatement _ iterable body => .value iterable :: blockClauses body
  | n => [.refused (.unsupported .analyse n.kindName)]

def blockClauses : Node → List Clause
  | .block statements => clausesAll statements
  | .program statements => clausesAll statements
  | .bareBlock item => [.refused (.shape (.notIterable item.kindName))]
  | n => [.refused (.shape (.noField n.kindName "statements"))]

def clausesAll : List Node → List Clause
  | [] => []
  | statement :: rest => clauses statement ++ clausesAll rest

end

/-! ### Analysing is checking the clauses -/

section sequencing

variable {symbols : Symbols}

/-- Analyses that follow one another may be grouped in either way, since a
fault stops all that is behind it. -/
theorem andThen_assoc (first : Analysed) (second third : Symbols → Analysed) :
    (first.andThen second).andThen third = first.andThen fun symbols =>
      (second symbols).andThen third := by
  obtain ⟨symbols, fault⟩ := first
  cases fault <;> rfl

theorem andThen_done (first : Analysed) :
    (first.andThen fun symbols => ⟨symbols, none⟩) = first := by
  obtain ⟨symbols, fault⟩ := first
  cases fault <;> rfl

theorem withType_andThen (result : Except Fault (Option Ty)) (first : Option Ty → Analysed)
    (next : Symbols → Analysed) :
    (withType symbols result first).andThen next = withType symbols result fun t =>
      (first t).andThen next := by
  cases result <;> rfl

/-- Clauses are checked in order, so those behind others start from the table
that these leave behind. -/
theorem analyseClauses_append (symbols : Symbols) (front others : List Clause) :
    analyseClauses symbols (front ++ others) =
      (analyseClauses symbols front).andThen fun symbols => analyseClauses symbols others := by
  induction front generalizing symbols with
  | nil => rfl
  | cons clause rest ih =>
      have hRest : (fun symbols => analyseClauses symbols (rest ++ others)) = fun symbols =>
          (analyseClauses symbols rest).andThen fun symbols => analyseClauses symbols others :=
            funext ih
      rw [List.cons_append, analyseClauses, analyseClauses, andThen_assoc, hRest]

theorem analyseClauses_singleton (symbols : Symbols) (clause : Clause) :
    analyseClauses symbols [clause] = clause.analyse symbols :=
  andThen_done _

/-- A value, and what is analysed after it. -/
theorem analyseClauses_value (symbols : Symbols) (value : Node) (rest : List Clause) :
    analyseClauses symbols (.value value :: rest) =
      withType symbols (typeOf symbols value) fun _ => analyseClauses symbols rest :=
  withType_andThen _ _ _

/-- A condition, and what is analysed after it. -/
theorem analyseClauses_condition (symbols : Symbols) (statement : String) (value : Node)
    (rest : List Clause) :
    analyseClauses symbols (.condition statement value :: rest) =
      withType symbols (typeOf symbols value) fun t =>
        if !isBool t then ⟨symbols, some (.analysis (.conditionNotBool statement))⟩
        else analyseClauses symbols rest := by
  rw [analyseClauses, Clause.analyse, withType_andThen]
  congr 1
  funext t
  cases isBool t <;> rfl

end sequencing

mutual

/-- Analysing a statement is checking its clauses. The clauses of a statement
stand in the order in which analysis comes to them, so both walks enter the
same names at the same time. -/
theorem analyse_eq_analyseClauses (symbols : Symbols) (n : Node) :
    analyse symbols n = analyseClauses symbols (clauses n) := by
  cases n with
  | program statements =>
      rw [analyse, clauses]
      exact analyseAll_eq_analyseClauses symbols statements
  | declaration name type value constant =>
      rw [clauses, analyseClauses_singleton, analyse, Clause.analyse]
  | functionDeclaration name parameters result body async =>
      rw [analyse, clauses, analyseClauses, Clause.analyse]
      split
      · rfl
      · exact analyseBlock_eq_analyseClauses _ body
  | returnStatement value =>
      cases value with
      | missing => rw [analyse, clauses, analyseClauses]
      | _ =>
          simp only [analyse, clauses, analyseClauses_singleton]
          rfl
  | showStatement value =>
      rw [clauses, analyseClauses_singleton, analyse, Clause.analyse]
  | ifStatement condition thenBlock elseBlock =>
      have hThen := analyseBlock_eq_analyseClauses symbols thenBlock
      have hElse := fun symbols => analyseBlock_eq_analyseClauses symbols elseBlock
      cases elseBlock with
      | missing =>
          simp only [analyse, clauses, analyseClauses_condition, analyseClauses_append, hThen,
            analyseClauses]
      | _ =>
          simp only [analyse, clauses, analyseClauses_condition, analyseClauses_append,
            hThen, hElse]
  | whileStatement condition body =>
      rw [analyse, clauses, analyseClauses_condition, analyseBlock_eq_analyseClauses symbols body]
  | forStatement iterator iterable body =>
      rw [analyse, clauses, analyseClauses_value, analyseBlock_eq_analyseClauses symbols body]
  | _ =>
      simp only [analyse, clauses, analyseClauses_singleton]
      rfl

/-- Analysing a block is checking the clauses of its statements. What is no
block is one clause that is refused. -/
theorem analyseBlock_eq_analyseClauses (symbols : Symbols) (block : Node) :
    analyseBlock symbols block = analyseClauses symbols (blockClauses block) := by
  cases block with
  | block statements | program statements =>
      rw [analyseBlock, blockClauses]
      exact analyseAll_eq_analyseClauses symbols statements
  | _ =>
      simp only [analyseBlock, blockClauses, analyseClauses_singleton]
      rfl

/-- Analysing statements one after the other is checking their clauses as one
list. -/
theorem analyseAll_eq_analyseClauses (symbols : Symbols) (statements : List Node) :
    analyseAll symbols statements = analyseClauses symbols (clausesAll statements) := by
  cases statements with
  | nil => rw [analyseAll, clausesAll, analyseClauses]
  | cons statement rest =>
      have hRest : (fun symbols => analyseAll symbols rest) = fun symbols =>
          analyseClauses symbols (clausesAll rest) :=
            funext fun symbols => analyseAll_eq_analyseClauses symbols rest
      rw [analyseAll, clausesAll, analyseClauses_append,
        analyse_eq_analyseClauses symbols statement, hRest]

end

/-! ### What a clause comes to -/

/-- The names of an expression that has a type fit what the table says of
them. -/
def FitAll (symbols : Symbols) (uses : List Use) : Prop :=
  ∀ use ∈ uses, use.Fits (symbols.get? use.name)

section expressions

variable {symbols : Symbols}

theorem fitAll_append {front others : List Use} (hFront : FitAll symbols front)
    (hOthers : FitAll symbols others) :
    FitAll symbols (front ++ others) :=
  fun use hUse => (List.mem_append.mp hUse).elim (hFront use) (hOthers use)

/-- The callee is the name of a function with as many parameters as there are
arguments. -/
theorem calledFunction_ok {function : Node} {count : Nat}
    {called : String × List (Option Ty) × Option Ty}
    (h : calledFunction symbols function count = .ok called) :
    function = .identifier called.1 ∧
      symbols.get? called.1 = some (.function called.2.1 called.2.2) ∧
      called.2.1.length = count := by
  cases function with
  | identifier name =>
      rw [calledFunction] at h
      split at h
      · cases h
      · split at h
        · cases h
        · cases h
        · rename_i hDeclared
          split at h
          · rename_i hCount
            cases h
            exact ⟨rfl, hDeclared, hCount⟩
          · cases h
  | _ => cases h

/-- Arguments fit their parameters only if the first has a type that the first
parameter accepts, and the others fit the other parameters. -/
theorem checkArguments_cons_ok {name : String} {position : Nat} {parameter : Option Ty}
    {parameters : List (Option Ty)} {argument : Node} {arguments : List Node}
    (h : checkArguments symbols name position (parameter :: parameters) (argument :: arguments) =
      .ok ()) :
    ∃ type, typeOf symbols argument = .ok type ∧ Ty.accepts parameter type = true ∧
      checkArguments symbols name (position + 1) parameters arguments = .ok () := by
  simp only [checkArguments, bind_eq_ok_iff] at h
  obtain ⟨type, hArgument, h⟩ := h
  split at h
  · rename_i hAccepts
    exact ⟨type, hArgument, hAccepts, h⟩
  · cases h

/-- All parts of a call that has a type. -/
theorem typeOf_call_ok {function : Node} {arguments : List Node} {type : Option Ty}
    (h : typeOf symbols (.call function arguments) = .ok type) :
    ∃ name parameters, function = .identifier name ∧
      symbols.get? name = some (.function parameters type) ∧
      parameters.length = arguments.length ∧
        checkArguments symbols name 1 parameters arguments = .ok () := by
  simp only [typeOf, bind_eq_ok_iff] at h
  obtain ⟨⟨name, parameters, result⟩, hCalled, _, hArguments, h⟩ := h
  obtain ⟨hFunction, hDeclared, hCount⟩ := calledFunction_ok hCalled
  cases h
  exact ⟨name, parameters, hFunction, hDeclared, hCount, hArguments⟩

mutual

/-- In an expression that has a type every name fits what the table says of it:
a value is a variable, and what is called is a function. -/
theorem fitAll_of_typeOf (e : Node) {type : Option Ty} (h : typeOf symbols e = .ok type) :
    FitAll symbols (uses e) := by
  cases e with
  | identifier name =>
      rw [typeOf] at h
      rw [uses, FitAll, List.forall_mem_singleton, Use.name, variableType_ok h]
      exact True.intro
  | binary left operator right =>
      obtain ⟨_, _, _, hLeft, hRight, -⟩ := typeOf_binary_ok h
      rw [uses]
      exact fitAll_append (fitAll_of_typeOf left hLeft) (fitAll_of_typeOf right hRight)
  | unary operator operand =>
      simp only [typeOf, bind_eq_ok_iff] at h
      obtain ⟨_, hOperand, -⟩ := h
      rw [uses]
      exact fitAll_of_typeOf operand hOperand
  | call function arguments =>
      obtain ⟨name, parameters, rfl, hDeclared, hCount, hArguments⟩ := typeOf_call_ok h
      rw [uses]
      refine fitAll_append ?_ (fitAll_of_checkArguments arguments hCount hArguments)
      rw [FitAll, List.forall_mem_singleton, Use.name, hDeclared]
      exact True.intro
  | member object name | memberNode object name =>
      simp only [typeOf, bind_eq_ok_iff] at h
      obtain ⟨_, hObject, -⟩ := h
      rw [uses]
      exact fitAll_of_typeOf object hObject
  | _ =>
      simp only [uses]
      exact List.forall_mem_nil _

/-- The names in arguments that fit their parameters fit the table, if there is
a parameter for each argument. -/
theorem fitAll_of_checkArguments (arguments : List Node) {name : String} {position : Nat}
    {parameters : List (Option Ty)} (hCount : parameters.length = arguments.length)
    (h : checkArguments symbols name position parameters arguments = .ok ()) :
    FitAll symbols (usesAll arguments) := by
  cases arguments with
  | nil =>
      rw [usesAll]
      exact List.forall_mem_nil _
  | cons argument arguments =>
      cases parameters with
      | nil => cases hCount
      | cons parameter parameters =>
          obtain ⟨type, hArgument, -, hRest⟩ := checkArguments_cons_ok h
          rw [usesAll]
          exact fitAll_append (fitAll_of_typeOf argument hArgument)
            (fitAll_of_checkArguments arguments (Nat.succ.inj hCount) hRest)

end

end expressions

section clauses

variable {symbols after : Symbols} {clause : Clause}

/-- What the table says of the names in an accepted clause: those it declares
are new, and those it uses fit. -/
structure Clause.Accepted (symbols : Symbols) (clause : Clause) : Prop where
  fresh : ∀ name ∈ clause.declares, symbols.get? name = none
  fits : FitAll symbols clause.uses

/-- The names of a clause are those of the expression in it, so they fit if
this has a type. -/
theorem Clause.fitAll_of_expression {value : Node} {type : Option Ty}
    (hExpression : clause.expression? = some value) (hTyped : typeOf symbols value = .ok type) :
    FitAll symbols clause.uses := by
  rw [Clause.uses, hExpression]
  exact fitAll_of_typeOf value hTyped

/-- A name is declared only where it is new. -/
theorem Clause.fresh_of_contains {name : String} (hDeclares : clause.declares = [name])
    (h : ¬ symbols.contains name = true) :
    ∀ name ∈ clause.declares, symbols.get? name = none := by
  rw [hDeclares]
  exact List.forall_mem_singleton.mpr (Table.contains_eq_false_iff.mp (Bool.eq_false_iff.mpr h))

/-- All that an accepted clause rests on, and what it leaves behind. The
entries that it adds are told by the clause alone, without the table. -/
theorem Clause.analyse_ok (h : clause.analyse symbols = ⟨after, none⟩) :
    clause.Accepted symbols ∧ after = symbols.update ⟨clause.bindings⟩ := by
  cases clause with
  | declaration name type value =>
      rw [Clause.analyse] at h
      split at h
      · cases h
      · rename_i hFresh
        obtain ⟨actual, hTyped, h⟩ := withType_ok h
        obtain ⟨-, rfl⟩ := declare_ok h
        exact ⟨⟨fresh_of_contains rfl hFresh, fitAll_of_expression rfl hTyped⟩, rfl⟩
  | function name parameters result =>
      rw [Clause.analyse] at h
      split at h
      · cases h
      · rename_i hFresh
        cases h
        exact ⟨⟨fresh_of_contains rfl hFresh, List.forall_mem_nil _⟩,
          declareFunction_eq symbols name parameters result⟩
  | condition statement value =>
      rw [Clause.analyse] at h
      obtain ⟨type, hTyped, h⟩ := withType_ok h
      obtain ⟨-, hDone⟩ := condition_ok h
      cases hDone
      exact ⟨⟨List.forall_mem_nil _, fitAll_of_expression rfl hTyped⟩, rfl⟩
  | value value =>
      rw [Clause.analyse] at h
      obtain ⟨type, hTyped, h⟩ := withType_ok h
      cases h
      exact ⟨⟨List.forall_mem_nil _, fitAll_of_expression rfl hTyped⟩, rfl⟩
  | refused fault => cases h

/-- A clause with a fault leaves the table alone. Every check is made before a
name is entered. -/
theorem Clause.symbols_of_fault {fault : Fault} (h : (clause.analyse symbols).fault = some fault) :
    (clause.analyse symbols).symbols = symbols := by
  cases clause with
  | declaration name type value =>
      rw [Clause.analyse] at h ⊢
      split
      · rfl
      · rename_i hFresh
        rw [if_neg hFresh] at h
        cases hTyped : typeOf symbols value with
        | error fault => rfl
        | ok actual =>
            rw [hTyped] at h
            simp only [withType, declare] at h ⊢
            split
            · rfl
            · rename_i hFits
              rw [if_neg hFits] at h
              cases h
  | function name parameters result =>
      rw [Clause.analyse] at h ⊢
      split
      · rfl
      · rename_i hFresh
        rw [if_neg hFresh] at h
        cases h
  | condition statement value =>
      rw [Clause.analyse]
      cases typeOf symbols value with
      | error fault => rfl
      | ok type =>
          rw [withType]
          cases isBool type <;> rfl
  | value value =>
      rw [Clause.analyse]
      cases typeOf symbols value <;> rfl
  | refused fault => rfl

/-- A clause binds the name it declares and those of its parameters. -/
theorem Clause.mem_names_bindings {other : String} :
    other ∈ clause.bindings.map Prod.fst ↔ other ∈ clause.declares ∨
      other ∈ clause.parameters.map Parameter.name := by
  cases clause with
  | function function parameters result =>
      simp [bindings, declares, Clause.parameters, functionEntries, or_comm]
  | _ => simp [bindings, declares, Clause.parameters]

/-- After an accepted clause, analysis goes on with what the clause has
entered. -/
theorem analyseClauses_cons_ok {rest : List Clause}
    (h : (analyseClauses symbols (clause :: rest)).fault = none) :
    clause.Accepted symbols ∧ clause.analyse symbols =
      ⟨symbols.update ⟨clause.bindings⟩, none⟩ ∧
      analyseClauses symbols (clause :: rest) =
        analyseClauses (symbols.update ⟨clause.bindings⟩) rest := by
  rw [analyseClauses] at h ⊢
  cases hClause : clause.analyse symbols with
  | mk middle fault =>
      rw [hClause] at h
      cases fault with
      | some fault => cases h
      | none =>
          obtain ⟨hAccepted, rfl⟩ := Clause.analyse_ok hClause
          exact ⟨hAccepted, rfl, rfl⟩

end clauses

end Analysis

end PageScript
