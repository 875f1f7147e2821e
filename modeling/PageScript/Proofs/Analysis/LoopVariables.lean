import PageScript.Proofs.Analysis.Clauses
import PageScript.Run.Machine

/-! Loops whose body reads the loop variable. A run binds the variable before
each turn; analysis never enters it. Main statement: a body that is fine with
the variable bound is accepted if it does not read the variable, or if the
table has it already, and is otherwise refused for the first reading. -/
namespace PageScript.Analysis

/-- Whether clauses read a name as it stood before them: as a value, and before
a parameter takes the name over. -/
def readsOuter (name : String) : List Clause → Bool
  | [] => false
  | clause :: rest =>
    clause.uses.contains (.value name) ||
      (!(clause.parameters.map Parameter.name).contains name && readsOuter name rest)

/-! ### Expressions under another table -/

section expressions

variable {s t : Symbols}

/-- A target that is assigned to is a name, and stands in the expression as a
value. -/
theorem binaryType_eq_of_uses {target : Node}
    (h : ∀ use ∈ uses target, s.get? use.name = t.get? use.name) (operator : String)
    (left right : Option Ty) :
    binaryType s target operator left right = binaryType t target operator left right := by
  have hAssigned : assignmentType s target right = assignmentType t target right := by
    cases target with
    | identifier name =>
        have hName : s.get? name = t.get? name := h (.value name) (.head _)
        simp only [assignmentType, hName]
    | _ => rfl
  simp only [binaryType, hAssigned]

theorem calledFunction_name_eq {name : String} (h : s.get? name = t.get? name) (count : Nat) :
    calledFunction s (.identifier name) count = calledFunction t (.identifier name) count := by
  simp only [calledFunction, h]

mutual

/-- An expression has its type under each table that says the same of the names
in it. The recursion is that of typing, and only identifiers look into the
table. -/
theorem typeOf_of_uses (e : Node) {type : Option Ty} (hTyped : typeOf t e = .ok type)
    (h : ∀ use ∈ uses e, s.get? use.name = t.get? use.name) : typeOf s e = .ok type := by
  cases e with
  | identifier name =>
      rw [typeOf] at hTyped ⊢
      exact (variableType_eq (h (.value name) (.head _))).trans hTyped
  | binary left operator right =>
      rw [uses, List.forall_mem_append] at h
      simp only [typeOf, bind_eq_ok_iff] at hTyped ⊢
      obtain ⟨leftType, hLeft, rightType, hRight, hType⟩ := hTyped
      refine ⟨leftType, typeOf_of_uses left hLeft h.1, rightType,
        typeOf_of_uses right hRight h.2, ?_⟩
      exact (binaryType_eq_of_uses h.1 operator leftType rightType).trans hType
  | unary operator operand =>
      rw [uses] at h
      simp only [typeOf, bind_eq_ok_iff] at hTyped ⊢
      obtain ⟨operandType, hOperand, hType⟩ := hTyped
      exact ⟨operandType, typeOf_of_uses operand hOperand h, hType⟩
  | call function arguments =>
      obtain ⟨name, parameters, rfl, -⟩ := typeOf_call_ok hTyped
      rw [uses, List.forall_mem_append] at h
      have hName : s.get? name = t.get? name := h.1 (.callee name) (.head _)
      simp only [typeOf, bind_eq_ok_iff] at hTyped ⊢
      rw [calledFunction_name_eq hName]
      obtain ⟨called, hCalled, _, hChecked, hType⟩ := hTyped
      obtain ⟨-, -, hCount⟩ := calledFunction_ok hCalled
      exact ⟨called, hCalled, (), checkArguments_of_uses arguments hCount hChecked h.2, hType⟩
  | member object name | memberNode object name =>
      rw [uses] at h
      simp only [typeOf, bind_eq_ok_iff] at hTyped ⊢
      obtain ⟨objectType, hObject, hType⟩ := hTyped
      exact ⟨objectType, typeOf_of_uses object hObject h, hType⟩
  | _ =>
      simp only [typeOf] at hTyped ⊢
      exact hTyped

/-- Arguments that fit with one table fit with another one that has the same
for the names in them. -/
theorem checkArguments_of_uses (arguments : List Node) {name : String} {position : Nat}
    {parameters : List (Option Ty)} (hCount : parameters.length = arguments.length)
    (hChecked : checkArguments t name position parameters arguments = .ok ())
    (h : ∀ use ∈ usesAll arguments, s.get? use.name = t.get? use.name) :
    checkArguments s name position parameters arguments = .ok () := by
  cases arguments with
  | nil => cases parameters <;> simp only [checkArguments]
  | cons argument arguments =>
      cases parameters with
      | nil => cases hCount
      | cons parameter parameters =>
          obtain ⟨type, hArgument, hAccepts, hRest⟩ := checkArguments_cons_ok hChecked
          rw [usesAll, List.forall_mem_append] at h
          simp only [checkArguments, bind_eq_ok_iff]
          refine ⟨type, typeOf_of_uses argument hArgument h.1, ?_⟩
          rw [if_pos hAccepts]
          exact checkArguments_of_uses arguments (Nat.succ.inj hCount) hRest h.2

end

section refusal

variable {name : String} {fault : Fault}

/-- The tables say the same of these names, apart from readings of one name. -/
abbrev SameApart (s t : Symbols) (name : String) (uses : List Use) : Prop :=
  ∀ use ∈ uses, use ≠ .value name → s.get? use.name = t.get? use.name

/-- Where the name set apart is not read, the two tables have the same for all
names that are. -/
theorem SameApart.same {uses : List Use} (h : SameApart s t name uses)
    (hUnread : .value name ∉ uses) :
    ∀ use ∈ uses, s.get? use.name = t.get? use.name :=
  fun use hUse => h use hUse fun hSame => hUnread (hSame ▸ hUse)

mutual

/-- A name that is no variable under the other table ends the typing of an
expression that reads it, as long as all other names are the same there. -/
theorem typeOf_of_refused (e : Node) {type : Option Ty} (hTyped : typeOf t e = .ok type)
    (h : SameApart s t name (uses e)) (hRefused : variableType s name = .error fault)
    (hRead : .value name ∈ uses e) : typeOf s e = .error fault := by
  cases e with
  | identifier other =>
      rw [uses, List.mem_singleton] at hRead
      cases hRead
      rw [typeOf]
      exact hRefused
  | binary left operator right =>
      rw [uses, SameApart, List.forall_mem_append] at h
      rw [uses] at hRead
      obtain ⟨_, _, _, hLeft, hRight, -⟩ := typeOf_binary_ok hTyped
      rw [typeOf, bind_eq_error_iff]
      by_cases hFirst : .value name ∈ uses left
      · exact .inl (typeOf_of_refused left hLeft h.1 hRefused hFirst)
      · refine .inr ⟨_, typeOf_of_uses left hLeft (SameApart.same h.1 hFirst), ?_⟩
        have hSecond := (List.mem_append.mp hRead).resolve_left hFirst
        exact bind_eq_error_iff.mpr (.inl (typeOf_of_refused right hRight h.2 hRefused hSecond))
  | unary operator operand =>
      rw [uses] at h hRead
      simp only [typeOf, bind_eq_ok_iff] at hTyped
      obtain ⟨_, hOperand, -⟩ := hTyped
      rw [typeOf, bind_eq_error_iff]
      exact .inl (typeOf_of_refused operand hOperand h hRefused hRead)
  | call function arguments =>
      obtain ⟨callee, parameters, rfl, -⟩ := typeOf_call_ok hTyped
      rw [uses, SameApart, List.forall_mem_append] at h
      rw [uses] at hRead
      have hCallee : s.get? callee = t.get? callee :=
        h.1 (.callee callee) (.head _) (by rintro ⟨⟩)
      have hArgument : .value name ∈ usesAll arguments :=
        (List.mem_append.mp hRead).resolve_left (by simp)
      simp only [typeOf, bind_eq_ok_iff] at hTyped
      obtain ⟨called, hCalled, _, hChecked, -⟩ := hTyped
      obtain ⟨-, -, hCount⟩ := calledFunction_ok hCalled
      rw [typeOf, calledFunction_name_eq hCallee, bind_eq_error_iff]
      refine .inr ⟨called, hCalled, bind_eq_error_iff.mpr (.inl ?_)⟩
      exact checkArguments_of_refused arguments hCount hChecked h.2 hRefused hArgument
  | member object other | memberNode object other =>
      rw [uses] at h hRead
      simp only [typeOf, bind_eq_ok_iff] at hTyped
      obtain ⟨_, hObject, -⟩ := hTyped
      rw [typeOf, bind_eq_error_iff]
      exact .inl (typeOf_of_refused object hObject h hRefused hRead)
  | _ =>
      simp only [uses] at hRead
      cases hRead

/-- Arguments that read a refused variable are refused for that variable, if
they would fit with a table that has it. -/
theorem checkArguments_of_refused (arguments : List Node) {function : String} {position : Nat}
    {parameters : List (Option Ty)} (hCount : parameters.length = arguments.length)
    (hChecked : checkArguments t function position parameters arguments = .ok ())
    (h : SameApart s t name (usesAll arguments)) (hRefused : variableType s name = .error fault)
    (hRead : .value name ∈ usesAll arguments) :
    checkArguments s function position parameters arguments = .error fault := by
  cases arguments with
  | nil =>
      rw [usesAll] at hRead
      cases hRead
  | cons argument arguments =>
      cases parameters with
      | nil => cases hCount
      | cons parameter parameters =>
          obtain ⟨type, hArgument, hAccepts, hRest⟩ := checkArguments_cons_ok hChecked
          rw [usesAll, SameApart, List.forall_mem_append] at h
          rw [usesAll] at hRead
          rw [checkArguments, bind_eq_error_iff]
          by_cases hFirst : .value name ∈ uses argument
          · exact .inl (typeOf_of_refused argument hArgument h.1 hRefused hFirst)
          · refine .inr ⟨type, typeOf_of_uses argument hArgument (SameApart.same h.1 hFirst),
              ?_⟩
            have hLater := (List.mem_append.mp hRead).resolve_left hFirst
            rw [if_pos hAccepts]
            exact checkArguments_of_refused arguments (Nat.succ.inj hCount) hRest h.2
              hRefused hLater

end

end refusal

end expressions

/-! ### Clauses under another table -/

section clauses

variable {s t after : Symbols} {clause : Clause} {name : String}

theorem declare_of_fits {type actual : Option Ty}
    (h : (Ty.resolve type).isSome = true → Ty.accepts (Ty.resolve type) actual = true) :
    declare s name type actual = ⟨s.set name (.variable (Ty.resolve type)), none⟩ := by
  rw [declare]
  exact if_neg (by simpa using h)

/-- A clause is accepted under each table that says the same of its names. The
names that it declares must be new in the other table, too. -/
theorem Clause.analyse_of_uses (hClause : clause.analyse t = ⟨after, none⟩)
    (hUses : ∀ use ∈ clause.uses, s.get? use.name = t.get? use.name)
    (hFresh : ∀ other ∈ clause.declares, s.get? other = none) :
    clause.analyse s = ⟨s.update ⟨clause.bindings⟩, none⟩ := by
  cases clause with
  | declaration other type value =>
      rw [Clause.analyse] at hClause ⊢
      split at hClause
      · cases hClause
      · obtain ⟨actual, hTyped, hDeclared⟩ := withType_ok hClause
        obtain ⟨hFits, -⟩ := declare_ok hDeclared
        have hContains := Table.contains_eq_false_iff.mpr (hFresh other (.head _))
        rw [typeOf_of_uses value hTyped hUses, if_neg (Bool.eq_false_iff.mp hContains)]
        exact declare_of_fits hFits
  | function other parameters result =>
      have hContains := Table.contains_eq_false_iff.mpr (hFresh other (.head _))
      rw [Clause.analyse, if_neg (Bool.eq_false_iff.mp hContains), declareFunction_eq,
        Clause.bindings]
  | condition statement value =>
      rw [Clause.analyse] at hClause ⊢
      obtain ⟨type, hTyped, hBool⟩ := withType_ok hClause
      obtain ⟨rfl, -⟩ := condition_ok hBool
      rw [typeOf_of_uses value hTyped hUses]
      rfl
  | value value =>
      rw [Clause.analyse] at hClause ⊢
      obtain ⟨type, hTyped, -⟩ := withType_ok hClause
      rw [typeOf_of_uses value hTyped hUses]
      rfl
  | refused fault => cases hClause

/-- A clause that reads a name that is no variable under the other table. -/
theorem Clause.fault_of_refused {fault : Fault} (hClause : clause.analyse t = ⟨after, none⟩)
    (hUses : SameApart s t name clause.uses)
    (hFresh : ∀ other ∈ clause.declares, s.get? other = none)
    (hRefused : variableType s name = .error fault) (hRead : .value name ∈ clause.uses) :
    (clause.analyse s).fault = some fault := by
  cases clause with
  | declaration other type value =>
      rw [Clause.analyse] at hClause ⊢
      split at hClause
      · cases hClause
      · obtain ⟨actual, hTyped, -⟩ := withType_ok hClause
        have hContains := Table.contains_eq_false_iff.mpr (hFresh other (.head _))
        rw [typeOf_of_refused value hTyped hUses hRefused hRead,
          if_neg (Bool.eq_false_iff.mp hContains)]
        rfl
  | condition statement value | value value =>
      rw [Clause.analyse] at hClause ⊢
      obtain ⟨type, hTyped, -⟩ := withType_ok hClause
      rw [typeOf_of_refused value hTyped hUses hRefused hRead]
      rfl
  | function | refused => cases hRead

/-- Clauses are accepted under each table that says the same of all names. -/
theorem analyseClauses_of_agree (hAgree : ∀ name, s.get? name = t.get? name) (all : List Clause)
    (hAccepted : (analyseClauses t all).fault = none) : (analyseClauses s all).fault = none := by
  induction all generalizing s t with
  | nil => rfl
  | cons clause rest ih =>
      obtain ⟨hNames, hClause, hRest⟩ := analyseClauses_cons_ok hAccepted
      have hFresh := fun other hDeclared => (hAgree other).trans (hNames.fresh other hDeclared)
      have hHere := Clause.analyse_of_uses hClause (fun use _ => hAgree use.name) hFresh
      rw [analyseClauses, hHere]
      refine ih (fun name => ?_) (hRest ▸ hAccepted)
      rw [Table.get?_update, Table.get?_update, hAgree name]

/-- The tables agree on all names but this one, and the second has it as a
variable. -/
structure Beside (name : String) (s t : Symbols) : Prop where
  agree : Agree (· ≠ name) s t
  known : ∃ type, t.get? name = some (.variable type)

/-- What an accepted clause uses is the same in both tables, the name set apart
from them excepted. -/
theorem Beside.sameApart (h : Beside name s t) (hNames : clause.Accepted t) :
    SameApart s t name clause.uses := by
  intro use hUse hOther
  by_cases hSame : use.name = name
  · obtain ⟨type, hKnown⟩ := h.known
    have hFits := hNames.fits use hUse
    rw [hSame, hKnown] at hFits
    cases use with
    | value other => exact absurd (congrArg Use.value hSame) hOther
    | callee other => exact hFits.elim
  · exact h.agree use.name hSame

theorem Beside.ne_of_declares (h : Beside name s t) (hNames : clause.Accepted t) {other : String}
    (hDeclared : other ∈ clause.declares) : other ≠ name := by
  rintro rfl
  obtain ⟨type, hKnown⟩ := h.known
  rw [hNames.fresh other hDeclared] at hKnown
  cases hKnown

theorem Beside.fresh (h : Beside name s t) (hNames : clause.Accepted t) :
    ∀ other ∈ clause.declares, s.get? other = none := by
  intro other hDeclared
  rw [h.agree other (h.ne_of_declares hNames hDeclared)]
  exact hNames.fresh other hDeclared

/-- No accepted clause binds the name but by a parameter. -/
theorem Beside.notMem_bindings (h : Beside name s t) (hNames : clause.Accepted t)
    (hParameter : name ∉ clause.parameters.map Parameter.name) :
    name ∉ clause.bindings.map Prod.fst := by
  intro hBound
  obtain hDeclared | hMember := Clause.mem_names_bindings.mp hBound
  · exact h.ne_of_declares hNames hDeclared rfl
  · exact hParameter hMember

/-- Tables that lie beside one another still do after a clause, unless it has a
parameter of the name in question. -/
theorem Beside.update (h : Beside name s t) (hNames : clause.Accepted t)
    (hParameter : name ∉ clause.parameters.map Parameter.name) :
    Beside name (s.update ⟨clause.bindings⟩) (t.update ⟨clause.bindings⟩) := by
  have hUnbound := h.notMem_bindings hNames hParameter
  have hSame : (t.update ⟨clause.bindings⟩).get? name = t.get? name :=
    Table.get?_update_of_notMem t hUnbound
  exact ⟨h.agree.update _, hSame ▸ h.known⟩

/-- A parameter of the name ends the difference. -/
theorem Beside.agree_of_parameter (h : Beside name s t)
    (hParameter : name ∈ clause.parameters.map Parameter.name) (other : String) :
    (s.update ⟨clause.bindings⟩).get? other = (t.update ⟨clause.bindings⟩).get? other := by
  by_cases hSame : other = name
  · obtain ⟨entry, hEntry⟩ :=
      Table.exists_lookup_of_mem (Clause.mem_names_bindings.mpr (.inr hParameter))
    rw [Table.get?_update, Table.get?_update, hSame, hEntry]
    rfl
  · exact h.agree.update _ other hSame

/-- Clauses that do not read the name as it stood before them. -/
theorem Beside.accepts (h : Beside name s t) (all : List Clause)
    (hAccepted : (analyseClauses t all).fault = none) (hUnread : readsOuter name all = false) :
    (analyseClauses s all).fault = none := by
  induction all generalizing s t with
  | nil => rfl
  | cons clause rest ih =>
      obtain ⟨hNames, hClause, hRest⟩ := analyseClauses_cons_ok hAccepted
      rw [hRest] at hAccepted
      rw [readsOuter, Bool.or_eq_false_iff, Bool.and_eq_false_imp] at hUnread
      obtain ⟨hHere, hLater⟩ := hUnread
      have hSame := SameApart.same (h.sameApart hNames) (by simpa using hHere)
      rw [analyseClauses, Clause.analyse_of_uses hClause hSame (h.fresh hNames)]
      by_cases hParameter : name ∈ clause.parameters.map Parameter.name
      · exact analyseClauses_of_agree (h.agree_of_parameter hParameter) rest hAccepted
      · exact ih (h.update hNames hParameter) hAccepted (hLater (by simpa using hParameter))

/-- Clauses that do read it are refused for the first reading, if the name is
no variable. The induction is on the clauses: up to the first reading both
tables agree on all that is used. -/
theorem Beside.refuses (h : Beside name s t) {fault : Fault}
    (hRefused : variableType s name = .error fault) (all : List Clause)
    (hAccepted : (analyseClauses t all).fault = none) (hRead : readsOuter name all = true) :
    (analyseClauses s all).fault = some fault := by
  induction all generalizing s t with
  | nil => cases hRead
  | cons clause rest ih =>
      obtain ⟨hNames, hClause, hRest⟩ := analyseClauses_cons_ok hAccepted
      rw [hRest] at hAccepted
      rw [analyseClauses]
      by_cases hHere : .value name ∈ clause.uses
      · have hFault :=
          Clause.fault_of_refused hClause (h.sameApart hNames) (h.fresh hNames) hRefused hHere
        rw [Analysed.andThen, hFault]
        exact hFault
      · have hSame := SameApart.same (h.sameApart hNames) hHere
        rw [Clause.analyse_of_uses hClause hSame (h.fresh hNames)]
        have hHere : clause.uses.contains (.value name) = false := by simpa using hHere
        rw [readsOuter, hHere, Bool.false_or, Bool.and_eq_true] at hRead
        have hParameter : name ∉ clause.parameters.map Parameter.name := by simpa using hRead.1
        refine ih (h.update hNames hParameter) ?_ hAccepted hRead.2
        rw [← hRefused]
        exact variableType_eq (Table.get?_update_of_notMem s (h.notMem_bindings hNames hParameter))

end clauses

/-! ### Loops -/

theorem beside_set (symbols : Symbols) (name : String) (type : Option Ty) :
    Beside name symbols (symbols.set name (.variable type)) :=
  ⟨fun _ hOther => (Table.get?_set_of_ne symbols hOther _).symm, type,
    Table.get?_set_self symbols name _⟩

/-- A loop over something that has a type, with a body that is accepted once
the loop variable is bound. Analysis accepts the loop if the table has the
variable already, with that type, or if the body does not read it other than as
a parameter. If the body reads it and the table does not have it as a variable,
the loop is refused for the reading. -/
theorem forStatement_iterator {symbols : Symbols} {iterator : String} {iterable body : Node}
    {type iterableType : Option Ty} (hIterable : typeOf symbols iterable = .ok iterableType)
    (hBody : (analyseBlock (symbols.set iterator (.variable type)) body).fault = none) :
    (symbols.get? iterator = some (.variable type) ∨
      readsOuter iterator (blockClauses body) = false →
      (analyse symbols (.forStatement iterator iterable body)).fault = none) ∧
    ∀ fault, variableType symbols iterator = .error fault →
      readsOuter iterator (blockClauses body) = true →
      (analyse symbols (.forStatement iterator iterable body)).fault = some fault := by
  have hBeside := beside_set symbols iterator type
  have hLoop : analyse symbols (.forStatement iterator iterable body) =
      analyseClauses symbols (blockClauses body) := by
    rw [analyse, hIterable, ← analyseBlock_eq_analyseClauses]
    rfl
  rw [analyseBlock_eq_analyseClauses] at hBody
  rw [hLoop]
  refine ⟨?_, fun fault hRefused hRead => hBeside.refuses hRefused _ hBody hRead⟩
  rintro (hKnown | hUnread)
  · refine analyseClauses_of_agree (fun name => ?_) _ hBody
    by_cases hSame : name = iterator
    · rw [hSame, hKnown, Table.get?_set_self]
    · exact hBeside.agree name hSame
  · exact hBeside.accepts _ hBody hUnread

/-- A reading inside a condition inside the loop, after a parameter of another
name. -/
theorem forStatement_iterator_nested :
    let symbols : Symbols := ⟨[("items", .variable (some .string))]⟩
    let body : Node := .block [
      .functionDeclaration "same" [⟨"x", some .string⟩] (some .string)
        (.block [.returnStatement (.identifier "x")]) false,
      .ifStatement (.bool true) (.block [
        .showStatement (.call (.identifier "same") [.identifier "item"])]) .missing]
    typeOf symbols (.identifier "items") = .ok (some .string) ∧
      (analyseBlock (symbols.set "item" (.variable (some .string))) body).fault = none ∧
      (analyse symbols (.forStatement "item" (.identifier "items") body)).fault =
        some (.analysis (.undeclaredVariable "item")) := by
  intro symbols body
  have hBody : (analyseBlock (symbols.set "item" (.variable (some .string))) body).fault = none :=
    rfl
  exact ⟨rfl, hBody, (forStatement_iterator rfl hBody).2 _ rfl (by decide)⟩

/-- A loop that shows its variable is refused, though the body is fine with the
variable of any type, and a run goes through all turns. -/
theorem loop_variable_undeclared :
    let body : Node := .block [.showStatement (.identifier "item")]
    let loop : Node := .forStatement "item" (.string "abc") body
    typeOf .empty (.string "abc") = .ok (some .string) ∧
      (∀ type, (analyseBlock (Table.empty.set "item" (.variable type)) body).fault = none) ∧
      (analyse .empty loop).fault = some (.analysis (.undeclaredVariable "item")) ∧
      ∀ rounds, (Run.interpret rounds (.program [loop]) .fresh).2 = .done :=
  ⟨rfl, fun _ => rfl, rfl, fun _ => rfl⟩

end PageScript.Analysis
