import PageScript.Proofs.Analysis.Acceptance
import PageScript.Proofs.Parse.WellFormed
import PageScript.Proofs.Table

/-! What analysis depends on. Main statement: two tables that agree on the
names a script mentions lead to the same verdict on it, and the script enters
the same names into both, all of which it declares. -/
namespace PageScript

namespace Table

variable {α : Type}

theorem update_update (t first second : Table α) :
    (t.update first).update second = t.update ⟨first.entries ++ second.entries⟩ := by
  simp only [update, List.foldl_append]

/-- Entries of other names do not change what a table has for a name. -/
theorem get?_update_of_notMem (t : Table α) {other : Table α} {name : String}
    (h : name ∉ other.names) :
    (t.update other).get? name = t.get? name := by
  obtain ⟨entries⟩ := other
  induction entries generalizing t with
  | nil => rfl
  | cons entry rest ih =>
      have hName : name ≠ entry.1 ∧ name ∉ names ⟨rest⟩ :=
        not_or.mp fun hEither => h (List.mem_cons.mpr hEither)
      have hSet := get?_set_of_ne t hName.1 entry.2
      exact (ih (t.set entry.1 entry.2) hName.2).trans hSet

end Table

namespace Node

/-- The names that a node itself declares. -/
def binds : Node → List String
  | declaration name _ _ _ => [name]
  | functionDeclaration name parameters _ _ _ => name :: parameters.map Parameter.name
  | _ => []

/-- The names that a node itself declares or refers to. -/
def names : Node → List String
  | identifier name => [name]
  | n => n.binds

/-- The name stands somewhere in the node, where each part has names of its
own. -/
def Holds (own : Node → List String) (n : Node) (name : String) : Prop :=
  ∃ part, Occurs part n ∧ name ∈ own part

/-- The name is declared somewhere in the node, as a variable, a function or a
parameter. -/
abbrev Declares (n : Node) (name : String) : Prop := n.Holds binds name

/-- The name is declared or referred to somewhere in the node. -/
abbrev Mentions (n : Node) (name : String) : Prop := n.Holds names name

section parts

variable {own : Node → List String} {n part : Node} {name : String}

theorem Holds.here (h : name ∈ own n) : Holds own n name :=
  ⟨n, .here, h⟩

theorem Holds.inside (hPart : part ∈ n.children) (h : Holds own part name) :
    Holds own n name := by
  obtain ⟨deeper, hOccurs, hName⟩ := h
  exact ⟨deeper, .inside hPart hOccurs, hName⟩

/-- A node holds a name as its own, or one of its parts holds it, at whatever
depth. -/
theorem holds_iff : Holds own n name ↔ name ∈ own n ∨ ∃ part ∈ n.children,
    Holds own part name := by
  constructor
  · rintro ⟨deeper, hOccurs, hName⟩
    cases hOccurs with
    | here => exact .inl hName
    | inside hPart hOccurs => exact .inr ⟨_, hPart, deeper, hOccurs, hName⟩
  · rintro (hHere | ⟨part, hPart, hInside⟩)
    · exact .here hHere
    · exact hInside.inside hPart

end parts

end Node

namespace Analysis

/-- Both tables say the same about each of these names. -/
def Agree (names : String → Prop) (s t : Symbols) : Prop :=
  ∀ name, names name → s.get? name = t.get? name

section agreement

variable {names : String → Prop} {s t : Symbols}

/-- Tables that agree still do after the same entry has been made in both. -/
theorem Agree.set (h : Agree names s t) (key : String) (entry : Declared) :
    Agree names (s.set key entry) (t.set key entry) := by
  intro name hName
  by_cases hSame : name = key
  · rw [hSame, Table.get?_set_self, Table.get?_set_self]
  · rw [Table.get?_set_of_ne s hSame, Table.get?_set_of_ne t hSame]
    exact h name hName

theorem Agree.update (h : Agree names s t) (entries : Symbols) :
    Agree names (s.update entries) (t.update entries) := by
  obtain ⟨entries⟩ := entries
  induction entries generalizing s t with
  | nil => exact h
  | cons entry rest ih => exact ih (h.set entry.1 entry.2)

theorem Agree.child {n part : Node} (h : Agree n.Mentions s t) (hPart : part ∈ n.children) :
    Agree part.Mentions s t :=
  fun name hName => h name (hName.inside hPart)

/-- On a name of theirs, tables that agree also agree on whether the name is
taken. -/
theorem Agree.contains_eq (h : Agree names s t) {name : String} (hName : names name) :
    s.contains name = t.contains name := by
  rw [Table.contains, Table.contains, h name hName]

end agreement

/-! ### Expressions -/

section expressions

variable {s t : Symbols}

theorem variableType_eq {name : String} (h : s.get? name = t.get? name) :
    variableType s name = variableType t name := by
  rw [variableType, variableType, h]

/-- The type of an assignment depends only on what the table has for the names
in its target. -/
theorem assignmentType_eq {target : Node} (h : Agree target.Mentions s t) (value : Option Ty) :
    assignmentType s target value = assignmentType t target value := by
  cases target with
  | identifier name =>
      have hName := h name (.here (.head _))
      simp only [assignmentType, hName]
  | _ => rfl

/-- Beside the types of its operands, an operation looks at the table for the
target of an assignment only. -/
theorem binaryType_eq {target : Node} (h : Agree target.Mentions s t) (operator : String)
    (left right : Option Ty) :
    binaryType s target operator left right = binaryType t target operator left right := by
  unfold binaryType
  split <;> first | rfl | exact assignmentType_eq h right

/-- The function that is called is looked up by its name, so tables that agree
on the name give the same one. -/
theorem calledFunction_eq {function : Node} (h : Agree function.Mentions s t) (count : Nat) :
    calledFunction s function count = calledFunction t function count := by
  cases function with
  | identifier name =>
      have hName := h name (.here (.head _))
      simp only [calledFunction, hName]
  | _ => rfl

mutual

/-- The type of an expression depends on the names in it only. -/
theorem typeOf_eq (e : Node) (h : Agree e.Mentions s t) : typeOf s e = typeOf t e := by
  cases e with
  | binary left operator right =>
      have hLeft := typeOf_eq left (h.child (.head _))
      have hRight := typeOf_eq right (h.child (.tail _ (.head _)))
      simp only [typeOf, hLeft, hRight, binaryType_eq (h.child (.head _))]
  | unary operator operand =>
      have hOperand := typeOf_eq operand (h.child (.head _))
      simp only [typeOf, hOperand]
  | identifier name =>
      rw [typeOf, typeOf]
      exact variableType_eq (h name (.here (.head _)))
  | call function arguments =>
      have hCalled := calledFunction_eq (h.child (.head _)) arguments.length
      have hArguments := fun name parameters => checkArguments_eq name 1 parameters arguments
        fun argument hMember => h.child (.tail _ hMember)
      simp only [typeOf, hCalled, hArguments]
  | member object name | memberNode object name =>
      have hObject := typeOf_eq object (h.child (.head _))
      simp only [typeOf, hObject]
  | _ => simp only [typeOf]

/-- Arguments are checked alike with tables that agree on the names in them. -/
theorem checkArguments_eq (name : String) (position : Nat) (parameters : List (Option Ty))
    (arguments : List Node) (h : ∀ argument ∈ arguments, Agree argument.Mentions s t) :
    checkArguments s name position parameters arguments =
      checkArguments t name position parameters arguments := by
  cases arguments with
  | nil => cases parameters <;> simp only [checkArguments]
  | cons argument arguments =>
      cases parameters with
      | nil => simp only [checkArguments]
      | cons parameter parameters =>
          have hFirst := typeOf_eq argument (h argument (.head _))
          have hRest := checkArguments_eq name (position + 1) parameters arguments fun a hMember =>
            h a (.tail _ hMember)
          simp only [checkArguments, hFirst, hRest]

end

end expressions

/-! ### Statements -/

/-- Two analyses run side by side: they end alike, and both enter the same
names, all of them among these. -/
structure SideBySide (names : String → Prop) (s t : Symbols) (first second : Analysed) :
    Prop where
  fault_eq : first.fault = second.fault
  entries : ∃ entries : Symbols, first.symbols = s.update entries ∧
      second.symbols = t.update entries ∧
    ∀ name ∈ entries.names, names name

section sideBySide

variable {names others : String → Prop} {s t : Symbols} {first second : Analysed}

theorem SideBySide.still (names : String → Prop) (s t : Symbols) (fault : Option Fault) :
    SideBySide names s t ⟨s, fault⟩ ⟨t, fault⟩ :=
  ⟨rfl, .empty, rfl, rfl, List.forall_mem_nil _⟩

theorem SideBySide.mono (h : SideBySide names s t first second)
    (hNames : ∀ name, names name → others name) :
    SideBySide others s t first second := by
  obtain ⟨entries, hFirst, hSecond, hEntered⟩ := h.entries
  exact ⟨h.fault_eq, entries, hFirst, hSecond,
    fun name hName => hNames name (hEntered name hName)⟩

/-- Entries made before the analyses. -/
theorem SideBySide.after_update {entries : Symbols}
    (hEntered : ∀ name ∈ entries.names, names name)
    (h : SideBySide names (s.update entries) (t.update entries) first second) :
    SideBySide names s t first second := by
  obtain ⟨later, hFirst, hSecond, hLater⟩ := h.entries
  rw [Table.update_update] at hFirst hSecond
  refine ⟨h.fault_eq, _, hFirst, hSecond, fun name hName => ?_⟩
  rw [Table.names, List.map_append, List.mem_append] at hName
  exact hName.elim (hEntered name) (hLater name)

/-- One analysis after another. The second goes on from tables with the same
new entries. -/
theorem SideBySide.andThen (h : SideBySide names s t first second) {next : Symbols → Analysed}
    (hNext : ∀ entries : Symbols, SideBySide names (s.update entries) (t.update entries)
      (next (s.update entries)) (next (t.update entries))) :
    SideBySide names s t (first.andThen next) (second.andThen next) := by
  obtain ⟨entries, hFirst, hSecond, hEntered⟩ := h.entries
  have hFault := h.fault_eq
  obtain ⟨symbols, fault⟩ := first
  obtain ⟨symbols', fault'⟩ := second
  cases hFault
  cases fault with
  | some fault => exact h
  | none =>
      cases hFirst
      cases hSecond
      exact .after_update hEntered (hNext entries)

/-- Analyses go side by side after an expression of the same type, if they do
for each type it may have. -/
theorem SideBySide.withType {result : Except Fault (Option Ty)}
    {next next' : Option Ty → Analysed}
    (hNext : ∀ type, SideBySide names s t (next type) (next' type)) :
    SideBySide names s t (Analysed.withType s result next) (Analysed.withType t result next') := by
  cases result with
  | ok type => exact hNext type
  | error fault => exact .still names s t (some fault)

/-- A condition that must be a truth value. -/
theorem SideBySide.condition {type : Option Ty} (refused : Fault)
    (h : SideBySide names s t first second) :
    SideBySide names s t (if !isBool type then ⟨s, some refused⟩ else first)
      (if !isBool type then ⟨t, some refused⟩ else second) := by
  cases isBool type with
  | false => exact .still names s t (some refused)
  | true => exact h

/-- Two declarations of one name go side by side: they have the same fault, or
make the same entry. -/
theorem SideBySide.declare {name : String} (hName : names name) (type actual : Option Ty) :
    SideBySide names s t (declare s name type actual) (declare t name type actual) := by
  unfold Analysis.declare
  dsimp only
  split
  · exact .still names s t _
  · exact ⟨rfl, ⟨[(name, .variable (Ty.resolve type))]⟩, rfl, rfl,
      List.forall_mem_singleton.mpr hName⟩

/-- The entries of a function: its parameters, and then itself. -/
def functionEntries (name : String) (parameters : List Parameter) (result : Option Ty) : Symbols :=
  ⟨parameters.map (fun p => (p.name, .variable (Ty.resolve p.type))) ++
    [(name, .function (parameters.map fun p => Ty.resolve p.type) (Ty.resolve result))]⟩

/-- Declaring a function is entering its parameters and then the function
itself. -/
theorem declareFunction_eq (s : Symbols) (name : String) (parameters : List Parameter)
    (result : Option Ty) :
    declareFunction s name parameters result =
      s.update (functionEntries name parameters result) := by
  simp only [declareFunction, Table.update, functionEntries, List.foldl_append, List.foldl_map,
    List.foldl_cons, List.foldl_nil]

/-- A function declares its own name and those of its parameters, and no
others. -/
theorem names_functionEntries {name other : String} {parameters : List Parameter}
    {result : Option Ty} (h : other ∈ (functionEntries name parameters result).names) :
    other ∈ name :: parameters.map Parameter.name := by
  have hNames : (functionEntries name parameters result).names = parameters.map Parameter.name ++
      [name] := by
    simp [functionEntries, Table.names, Function.comp_def]
  rw [hNames, List.mem_append, List.mem_singleton] at h
  exact List.mem_cons.mpr h.symm

end sideBySide

mutual

/-- A statement is judged alike from tables that agree on the names in it, and
enters the same names into both. -/
theorem analyse_sideBySide {s t : Symbols} (n : Node) (h : Agree n.Mentions s t) :
    SideBySide n.Declares s t (analyse s n) (analyse t n) := by
  cases n with
  | program statements =>
      rw [analyse, analyse]
      refine (analyseAll_sideBySide statements fun statement hMember => h.child hMember).mono ?_
      rintro name ⟨statement, hMember, hDeclares⟩
      exact hDeclares.inside hMember
  | declaration name type value constant =>
      have hTyped := typeOf_eq value (h.child (.head _))
      have hContains : s.contains name = t.contains name := h.contains_eq (.here (.head _))
      rw [analyse, analyse, hTyped, hContains]
      split
      · exact .still _ s t _
      · exact .withType fun actual => .declare (.here (.head _)) type actual
  | functionDeclaration name parameters result body async =>
      have hContains : s.contains name = t.contains name := h.contains_eq (.here (.head _))
      rw [analyse, analyse, hContains, declareFunction_eq, declareFunction_eq]
      split
      · exact .still _ s t _
      · refine .after_update ?_ ((analyseBlock_sideBySide body ((h.child (.head _)).update _)).mono
          ?_)
        · exact fun other hEntered => .here (names_functionEntries hEntered)
        · exact fun other hDeclares => hDeclares.inside (.head _)
  | returnStatement value =>
      cases value with
      | missing =>
          rw [analyse, analyse]
          exact .still _ s t none
      | _ =>
          have hTyped := typeOf_eq _ (h.child (.head _))
          simp only [analyse, hTyped]
          exact .withType fun _ => .still _ s t none
  | showStatement value =>
      have hTyped := typeOf_eq value (h.child (.head _))
      rw [analyse, analyse, hTyped]
      exact .withType fun _ => .still _ s t none
  | ifStatement condition thenBlock elseBlock =>
      have hTyped := typeOf_eq condition (h.child (.head _))
      rw [analyse, analyse, hTyped]
      refine .withType fun type => .condition _ (.andThen ?_ fun entries => ?_)
      · refine (analyseBlock_sideBySide thenBlock (h.child (.tail _ (.head _)))).mono ?_
        exact fun name hDeclares => hDeclares.inside (.tail _ (.head _))
      · have hElse :=
          analyseBlock_sideBySide elseBlock ((h.child (.tail _ (.tail _ (.head _)))).update entries)
        cases elseBlock with
        | missing => exact .still _ _ _ none
        | _ => exact hElse.mono fun name hDeclares => hDeclares.inside (.tail _ (.tail _ (.head _)))
  | whileStatement condition body =>
      have hTyped := typeOf_eq condition (h.child (.head _))
      rw [analyse, analyse, hTyped]
      refine .withType fun type => .condition _ ?_
      refine (analyseBlock_sideBySide body (h.child (.tail _ (.head _)))).mono ?_
      exact fun name hDeclares => hDeclares.inside (.tail _ (.head _))
  | forStatement iterator iterable body =>
      have hTyped := typeOf_eq iterable (h.child (.head _))
      rw [analyse, analyse, hTyped]
      refine .withType fun type => (analyseBlock_sideBySide body (h.child (.tail _ (.head _)))).mono
        ?_
      exact fun name hDeclares => hDeclares.inside (.tail _ (.head _))
  | _ =>
      simp only [analyse]
      exact .still _ s t _

/-- Blocks are analysed side by side with tables that agree on the names in
them. -/
theorem analyseBlock_sideBySide {s t : Symbols} (block : Node) (h : Agree block.Mentions s t) :
    SideBySide block.Declares s t (analyseBlock s block) (analyseBlock t block) := by
  cases block with
  | block statements | program statements =>
      rw [analyseBlock, analyseBlock]
      refine (analyseAll_sideBySide statements fun statement hMember => h.child hMember).mono ?_
      rintro name ⟨statement, hMember, hDeclares⟩
      exact hDeclares.inside hMember
  | _ =>
      simp only [analyseBlock]
      exact .still _ s t _

/-- Statements are analysed side by side, one after the other: what the first
ones enter is the same in both tables. -/
theorem analyseAll_sideBySide {s t : Symbols} (statements : List Node)
    (h : ∀ statement ∈ statements, Agree statement.Mentions s t) :
    SideBySide (fun name => ∃ statement ∈ statements, statement.Declares name) s t
      (analyseAll s statements) (analyseAll t statements) := by
  cases statements with
  | nil =>
      rw [analyseAll, analyseAll]
      exact .still _ s t none
  | cons statement rest =>
      rw [analyseAll, analyseAll]
      refine .andThen ((analyse_sideBySide statement (h statement (.head _))).mono ?_)
        fun entries => ?_
      · exact fun name hDeclares => ⟨statement, .head _, hDeclares⟩
      · have hRest :=
          analyseAll_sideBySide rest fun other hMember => (h other (.tail _ hMember)).update entries
        refine hRest.mono ?_
        rintro name ⟨other, hMember, hDeclares⟩
        exact ⟨other, .tail _ hMember, hDeclares⟩

end

end Analysis

end PageScript
