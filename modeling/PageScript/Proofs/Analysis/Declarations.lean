import PageScript.Proofs.Analysis.Clauses

/-! The names of a script that analysis lets through, and what becomes of the
names known before. A name is declared once, and used as what it was last bound
to. Parameters are the exception to the first: they take over any name, and
keep it after their function. -/
namespace PageScript.Analysis

/-- The names of all variables and functions declared in a script, at any
depth, in the order of the text. -/
def declaredNames (script : Node) : List String :=
  (clauses script).flatMap Clause.declares

/-- The parameters of all functions declared in a script, in the order of the
text. -/
def parametersOf (script : Node) : List Parameter :=
  (clauses script).flatMap Clause.parameters

/-- What a name was last bound to: by the clauses so far, or else by the
table. -/
def lastBound (symbols : Symbols) (earlier : List Clause) (name : String) : Option Declared :=
  ((earlier.flatMap Clause.bindings).reverse.lookup name).or (symbols.get? name)

/-! ### Declaration before use -/

section order

variable {symbols : Symbols} {clause : Clause}

theorem Clause.declares_nodup (clause : Clause) : clause.declares.Nodup := by
  cases clause with
  | declaration | function => exact List.pairwise_singleton _ _
  | _ => exact List.nodup_nil

/-- Clauses that are accepted one after the other never declare a name that is
known. -/
theorem declares_distinct (all : List Clause) (h : (analyseClauses symbols all).fault = none) :
    (all.flatMap Clause.declares).Nodup ∧ ∀ name ∈ all.flatMap Clause.declares,
      symbols.get? name = none := by
  induction all generalizing symbols with
  | nil => exact ⟨List.nodup_nil, List.forall_mem_nil _⟩
  | cons clause rest ih =>
      obtain ⟨hAccepted, -, hRest⟩ := analyseClauses_cons_ok h
      obtain ⟨hDistinct, hNew⟩ := ih (hRest ▸ h)
      have hLater : ∀ name ∈ rest.flatMap Clause.declares,
          symbols.get? name = none ∧ name ∉ clause.bindings.map Prod.fst :=
        fun name hName => Table.get?_eq_none_of_update (hNew name hName)
      rw [List.flatMap_cons]
      refine ⟨List.nodup_append.mpr ⟨clause.declares_nodup, hDistinct, ?_⟩, ?_⟩
      · rintro name hHere _ hThere rfl
        exact (hLater name hThere).2 (Clause.mem_names_bindings.mpr (.inl hHere))
      · intro name hName
        exact (List.mem_append.mp hName).elim (hAccepted.fresh name) fun hThere =>
          (hLater name hThere).1

/-- Each of them is accepted with what those before it have entered. -/
theorem accepted_after (earlier : List Clause) {later : List Clause}
    (h : (analyseClauses symbols (earlier ++ clause :: later)).fault = none) :
    clause.Accepted (symbols.update ⟨earlier.flatMap Clause.bindings⟩) := by
  induction earlier generalizing symbols with
  | nil => exact (analyseClauses_cons_ok h).1
  | cons first rest ih =>
      have hRest := (analyseClauses_cons_ok h).2.2
      rw [List.flatMap_cons, ← Table.update_update symbols ⟨first.bindings⟩
        ⟨rest.flatMap Clause.bindings⟩]
      exact ih (hRest ▸ h)

end order

/-- An accepted script never declares a name that is known, and its
declarations differ in their names, at whatever depth they stand. It uses no
name before it is bound, in the operand of an await and as the member of an
access apart: a name that stands for a value was last bound to a variable, by a
declaration or as a parameter, and one that is called to a function. -/
theorem declared_before_use {symbols : Symbols} {script : Node}
    (hAccepted : (analyse symbols script).fault = none) :
    (declaredNames script).Nodup ∧
      (∀ name ∈ declaredNames script, symbols.get? name = none) ∧
      ∀ earlier clause later, clauses script = earlier ++ clause :: later →
        ∀ use ∈ clause.uses, use.Fits (lastBound symbols earlier use.name) := by
  rw [analyse_eq_analyseClauses] at hAccepted
  obtain ⟨hDistinct, hNew⟩ := declares_distinct (clauses script) hAccepted
  refine ⟨hDistinct, hNew, fun earlier clause later hSplit use hUse => ?_⟩
  have hClause := accepted_after earlier (hSplit ▸ hAccepted)
  rw [lastBound, ← Table.get?_update]
  exact hClause.fits use hUse

/-- A parameter that takes over a known name, and a call of a function inside a
block. -/
theorem declared_before_use_nested :
    let symbols : Symbols := ⟨[("n", .variable (some .string))]⟩
    let script : Node := .program [
      .functionDeclaration "twice" [⟨"n", some .int⟩] (some .int)
        (.block [.returnStatement (.binary (.identifier "n") "+" (.identifier "n"))]) false,
      .ifStatement (.bool true) (.block [
        .declaration "k" (some .int) (.call (.identifier "twice") [.identifier "n"]) false])
          .missing,
      .showStatement (.identifier "k")]
    (analyse symbols script).fault = none ∧ declaredNames script = ["twice", "k"] ∧
      ((declaredNames script).Nodup ∧
        (∀ name ∈ declaredNames script, symbols.get? name = none) ∧
        ∀ earlier clause later, clauses script = earlier ++ clause :: later →
          ∀ use ∈ clause.uses, use.Fits (lastBound symbols earlier use.name)) :=
  ⟨rfl, rfl, declared_before_use rfl⟩

mutual

/-- All names in an expression, the operand of an await apart, whether analysis
looks at them or not. -/
def mentioned : Node → List String
  | .identifier name => [name]
  | .binary left _ right => mentioned left ++ mentioned right
  | .unary _ operand => mentioned operand
  | .call function arguments => mentioned function ++ mentionedAll arguments
  | .member object _ => mentioned object
  | .memberNode object member => mentioned object ++ mentioned member
  | _ => []

def mentionedAll : List Node → List String
  | [] => []
  | e :: rest => mentioned e ++ mentionedAll rest

end

/-- A name in the place of a member need not be bound: the script is accepted,
although its name `b` is neither known before nor declared. -/
theorem undeclared_member :
    let script : Node := .program [
      .declaration "a" (some .int) (.number (.int 1)) false,
      .showStatement (.memberNode (.identifier "a") (.identifier "b"))]
    (analyse ⟨[]⟩ script).fault = none ∧
      ∃ earlier e later, clauses script = earlier ++ .value e :: later ∧
        ∃ name ∈ mentioned e, lastBound ⟨[]⟩ earlier name = none ∧
          name ∉ declaredNames script := by
  intro script
  refine ⟨rfl, [.declaration "a" (some .int) (.number (.int 1))], _, [], rfl, "b", ?_, rfl, ?_⟩
  · exact .tail _ (.head _)
  · intro hDeclared
    have hName : "b" = "a" := List.mem_singleton.mp hDeclared
    exact absurd hName (by decide)

/-! ### Names known before -/

/-- What a name stands for after these parameters, each of which makes a
variable of its name. -/
def retyped (name : String) (parameters : List Parameter) (entry : Declared) : Declared :=
  parameters.foldl (fun entry p => if p.name = name then .variable (Ty.resolve p.type) else entry)
    entry

section retyping

variable {symbols : Symbols} {clause : Clause} {name : String} {entry : Declared}

theorem retyped_eq_self {parameters : List Parameter}
    (h : ∀ p ∈ parameters, p.name = name → .variable (Ty.resolve p.type) = entry) :
    retyped name parameters entry = entry := by
  induction parameters with
  | nil => rfl
  | cons p rest ih =>
      have hFirst : (if p.name = name then .variable (Ty.resolve p.type) else entry) = entry :=
        ite_eq_right_iff.mpr (h p (.head _))
      rw [retyped, List.foldl_cons, hFirst]
      exact ih fun other hMember => h other (.tail _ hMember)

/-- Entering parameters changes a known name as `retyped` says: by the
parameters of that name, the last of which counts. -/
theorem get?_parameters (h : symbols.get? name = some entry) (parameters : List Parameter) :
    (parameters.foldl (fun s p => s.set p.name (.variable (Ty.resolve p.type))) symbols).get? name =
      some (retyped name parameters entry) := by
  induction parameters generalizing symbols entry with
  | nil => exact h
  | cons p rest ih =>
      refine ih ?_
      dsimp only
      split
      · rename_i hSame
        rw [hSame, Table.get?_set_self]
      · rename_i hOther
        rw [Table.get?_set_of_ne symbols (Ne.symm hOther), h]

/-- The parameters of an accepted clause are all that can change a known
name. -/
theorem Clause.Accepted.get?_bindings (hAccepted : clause.Accepted symbols)
    (h : symbols.get? name = some entry) :
    (symbols.update ⟨clause.bindings⟩).get? name =
      some (retyped name clause.parameters entry) := by
  have hNew : name ∉ clause.declares := by
    intro hDeclared
    rw [hAccepted.fresh name hDeclared] at h
    cases h
  cases clause with
  | declaration other type value =>
      have hOther : name ≠ other := List.ne_of_not_mem_cons hNew
      exact (Table.get?_set_of_ne symbols hOther _).trans h
  | function other parameters result =>
      have hOther : name ≠ other := List.ne_of_not_mem_cons hNew
      have hSymbols := declareFunction_eq symbols other parameters result
      rw [bindings, ← hSymbols, declareFunction, Table.get?_set_of_ne _ hOther]
      exact get?_parameters h parameters
  | _ => exact h

/-- Clauses change a known name by the parameters they reach. A clause with a
fault leaves the table alone, so from there on no parameter is reached. -/
theorem analyseClauses_retyped (symbols : Symbols) (all : List Clause) :
    ∃ reached, reached <+: all.flatMap Clause.parameters ∧
      ((analyseClauses symbols all).fault = none → reached = all.flatMap Clause.parameters) ∧
      ∀ name entry, symbols.get? name = some entry →
        (analyseClauses symbols all).symbols.get? name = some (retyped name reached entry) := by
  induction all generalizing symbols with
  | nil => exact ⟨[], List.prefix_rfl, fun _ => rfl, fun _ _ h => h⟩
  | cons clause rest ih =>
      rw [analyseClauses, List.flatMap_cons]
      cases hClause : clause.analyse symbols with
      | mk middle fault =>
          cases fault with
          | some fault =>
              have hSymbols := Clause.symbols_of_fault (congrArg Analysed.fault hClause)
              rw [hClause] at hSymbols
              cases hSymbols
              exact ⟨[], List.nil_prefix, by rintro ⟨⟩, fun _ _ h => h⟩
          | none =>
              obtain ⟨hAccepted, rfl⟩ := Clause.analyse_ok hClause
              obtain ⟨reached, hReached, hAll, hNames⟩ :=
                ih (symbols.update ⟨clause.bindings⟩)
              refine ⟨clause.parameters ++ reached,
                (List.prefix_append_right_inj _).mpr hReached, ?_, ?_⟩
              · intro hFault
                rw [hAll hFault]
              · intro name entry hEntry
                rw [retyped, List.foldl_append]
                exact hNames name _ (hAccepted.get?_bindings hEntry)

end retyping

/-- A statement changes the names known before by its parameters and by nothing
else, whether analysis ends well or not: each parameter it reaches makes a
variable of its name. So a name keeps its type if no parameter in the statement
has the name and another type. -/
theorem analyse_retypes_parameters (symbols : Symbols) (statement : Node) :
    (∃ reached, reached <+: parametersOf statement ∧
      ((analyse symbols statement).fault = none → reached = parametersOf statement) ∧
      ∀ name entry, symbols.get? name = some entry →
        (analyse symbols statement).symbols.get? name = some (retyped name reached entry)) ∧
    ∀ name entry, symbols.get? name = some entry →
      (∀ p ∈ parametersOf statement, p.name = name →
        .variable (Ty.resolve p.type) = entry) →
      (analyse symbols statement).symbols.get? name = some entry := by
  rw [analyse_eq_analyseClauses]
  obtain ⟨reached, hReached, hAll, hNames⟩ := analyseClauses_retyped symbols (clauses statement)
  refine ⟨⟨reached, hReached, hAll, hNames⟩, fun name entry hEntry hSame => ?_⟩
  rw [hNames name entry hEntry, retyped_eq_self fun p hMember => hSame p (hReached.subset hMember)]

/-- A parameter of another type changes the type of a variable declared
before. -/
theorem parameter_retypes_variable :
    let symbols : Symbols := ⟨[("x", .variable (some .int))]⟩
    let statement : Node := .functionDeclaration "f" [⟨"x", some .string⟩] (some .int)
      (.block [.returnStatement (.number (.int 1))]) false
    (analyse symbols statement).fault = none ∧ symbols.get? "x" = some (.variable (some .int)) ∧
      (analyse symbols statement).symbols.get? "x" = some (.variable (some .string)) :=
  ⟨rfl, rfl, rfl⟩

end PageScript.Analysis
