import PageScript.Proofs.Tree.Record

/-! Which parsed scripts have a record. A type has none, and the name of a
member is taken for a node. Main statement: a parsed script is recorded exactly
if it declares no variable with a type and no function and accesses no member;
otherwise the fault names the kind of one of these. -/
namespace PageScript

namespace Node

/-- The kinds of what stands in a node itself and has no record: the types of a
declaration, and the text of a member's name. -/
def unrecorded : Node → List String
  | declaration _ type _ _ => type.toList.map Ty.kindName
  | functionDeclaration _ parameters result _ _ =>
    (parameters.flatMap fun p => p.type.toList.map Ty.kindName) ++ result.toList.map Ty.kindName
  | member _ _ => ["str"]
  | _ => []

/-- What recording fails with on something of a kind that has no record. -/
def noRecord (kind : String) : Fault := .shape (.noField kind "to_dict")

/-- What stands in a node is smaller than the node. -/
theorem sizeOf_lt_of_mem_children {n child : Node} (h : child ∈ n.children) :
    sizeOf child < sizeOf n := by
  cases n with
  | program nodes | block nodes | classDeclaration _ nodes | gate _ nodes | element _ _ nodes =>
      have hLess : sizeOf child < sizeOf nodes := List.sizeOf_lt_of_mem h
      simp
      omega
  | call function arguments =>
      rcases List.mem_cons.mp h with rfl | hArgument
      · simp +arith
      · have hLess := List.sizeOf_lt_of_mem hArgument
        simp
        omega
  | bareBlock | declaration | showStatement | saveStatement | returnStatement | throwStatement
  | expressionStatement | functionDeclaration | bareClass | transaction | hashing | dynamic | await
  | unary | member =>
      cases List.mem_singleton.mp h
      simp +arith
  | whileStatement | forStatement | encryption | decryption | signing | binary | memberNode =>
      rcases List.mem_pair.mp h with rfl | rfl <;> simp +arith
  | ifStatement | verification =>
      simp only [children, List.mem_cons, List.not_mem_nil, or_false] at h
      rcases h with rfl | rfl | rfl <;> simp +arith
  | tryStatement =>
      simp only [children, List.mem_cons, List.not_mem_nil, or_false] at h
      rcases h with rfl | rfl | rfl | rfl <;> simp +arith
  | _ => cases h

/-! ### Lists and types -/

theorem recordAll_cons {n : Node} (h : n ≠ missing) (rest : List Node) :
    recordAll (n :: rest) = (do return (← recordField n) :: (← recordAll rest)) := by
  cases n with
  | missing => exact absurd rfl h
  | _ => rfl

theorem recordAll_ok_iff {ns : List Node} (h : ∀ n ∈ ns, n ≠ missing) :
    (∃ rs, recordAll ns = .ok rs) ↔ ∀ n ∈ ns, ∃ r, recordField n = .ok r := by
  induction ns with
  | nil => simp [recordAll]
  | cons n rest ih =>
      obtain ⟨hFirst, hRest⟩ := List.forall_mem_cons.mp h
      rw [recordAll_cons hFirst, List.forall_mem_cons, ← ih hRest]
      simp [bind_eq_ok_iff, pure_eq_ok]

/-- Where nodes have no records together, one of them has none, for the same
reason. -/
theorem exists_of_recordAll_error {ns : List Node} (h : ∀ n ∈ ns, n ≠ missing) {f : Fault}
    (hError : recordAll ns = .error f) : ∃ n ∈ ns, recordField n = .error f := by
  induction ns with
  | nil => cases hError
  | cons n rest ih =>
      obtain ⟨hFirst, hRest⟩ := List.forall_mem_cons.mp h
      rw [recordAll_cons hFirst] at hError
      rcases bind_eq_error_iff.mp hError with hHere | ⟨first, -, hOthers⟩
      · exact ⟨n, .head _, hHere⟩
      · rcases bind_eq_error_iff.mp hOthers with hLater | ⟨others, -, hPure⟩
        · obtain ⟨m, hm, hFault⟩ := ih hRest hLater
          exact ⟨m, .tail _ hm, hFault⟩
        · cases hPure

theorem exists_of_typeField_error {type : Option Ty} {f : Fault}
    (h : Record.typeField type = .error f) :
    ∃ kind ∈ type.toList.map Ty.kindName, f = noRecord kind := by
  cases type with
  | none => cases h
  | some t =>
      cases h
      exact ⟨_, .head _, rfl⟩

/-- Parameters without records have a type among them, and the fault names its
kind. -/
theorem exists_of_parameters_error {parameters : List Parameter} {f : Fault}
    (h : parameters.mapM Record.parameter = .error f) :
    ∃ kind ∈ parameters.flatMap fun p => p.type.toList.map Ty.kindName, f = noRecord kind := by
  induction parameters with
  | nil => cases h
  | cons p rest ih =>
      rw [List.mapM_cons] at h
      rw [List.flatMap_cons]
      rcases bind_eq_error_iff.mp h with hFirst | ⟨r, -, hOthers⟩
      · rcases bind_eq_error_iff.mp hFirst with hType | ⟨type, -, hPure⟩
        · obtain ⟨kind, hKind, hFault⟩ := exists_of_typeField_error hType
          exact ⟨kind, List.mem_append_left _ hKind, hFault⟩
        · cases hPure
      · rcases bind_eq_error_iff.mp hOthers with hLater | ⟨rs, -, hPure⟩
        · obtain ⟨kind, hKind, hFault⟩ := ih hLater
          exact ⟨kind, List.mem_append_right _ hKind, hFault⟩
        · cases hPure

/-! ### One node -/

/-- Whether a node has a record, and what the fault is if it has none, is
decided by the node itself and by what stands directly in it. -/
structure DecidedInside (n : Node) : Prop where
  recorded_iff : (∃ r, recordField n = .ok r) ↔
    n.unrecorded = [] ∧ ∀ child ∈ n.children, ∃ r, recordField child = .ok r
  fault_of_error : ∀ f, recordField n = .error f →
    (∃ kind ∈ n.unrecorded, f = noRecord kind) ∨ ∃ child ∈ n.children,
      recordField child = .error f

/-- A computation that records these nodes one after the other and then
succeeds. -/
inductive RecordsInOrder : List Node → Except Fault Record → Prop where
  | done (r : Record) : RecordsInOrder [] (.ok r)
  | next {child : Node} {rest : List Node} {go : Record → Except Fault Record}
      (later : ∀ r, RecordsInOrder rest (go r)) :
      RecordsInOrder (child :: rest) (child.recordField >>= go)

/-- Recording nodes one after the other succeeds exactly if each of them has a
record. -/
theorem RecordsInOrder.ok_iff {nodes : List Node} {result : Except Fault Record}
    (h : RecordsInOrder nodes result) :
    (∃ r, result = .ok r) ↔ ∀ child ∈ nodes, ∃ r, recordField child = .ok r := by
  induction h with
  | done r => exact ⟨fun _ => List.forall_mem_nil _, fun _ => ⟨r, rfl⟩⟩
  | @next child rest go _ ih =>
      rw [List.forall_mem_cons]
      constructor
      · rintro ⟨r, hAll⟩
        obtain ⟨first, hFirst, hLater⟩ := bind_eq_ok_iff.mp hAll
        exact ⟨⟨first, hFirst⟩, (ih first).mp ⟨r, hLater⟩⟩
      · rintro ⟨⟨first, hFirst⟩, hRest⟩
        obtain ⟨r, hLater⟩ := (ih first).mpr hRest
        exact ⟨r, bind_eq_ok_iff.mpr ⟨first, hFirst, hLater⟩⟩

/-- Recording nodes one after the other fails with the fault of one of them. -/
theorem RecordsInOrder.exists_of_error {nodes : List Node} {result : Except Fault Record}
    (h : RecordsInOrder nodes result) {f : Fault} (hError : result = .error f) :
    ∃ child ∈ nodes, recordField child = .error f := by
  induction h with
  | done r => cases hError
  | next _ ih =>
      rcases bind_eq_error_iff.mp hError with hHere | ⟨first, -, hLater⟩
      · exact ⟨_, .head _, hHere⟩
      · obtain ⟨child, hChild, hFault⟩ := ih first hLater
        exact ⟨child, .tail _ hChild, hFault⟩

/-- A node that is recorded by recording what stands in it, one after the
other, has a record exactly if all of this has one. -/
theorem RecordsInOrder.decidedInside {n : Node} (h : RecordsInOrder n.children n.recordField)
    (hOwn : n.unrecorded = []) :
    n.DecidedInside where
  recorded_iff := by rw [h.ok_iff, hOwn, eq_self, true_and]
  fault_of_error _ hError := .inr (h.exists_of_error hError)

/-- A node that is recorded through the list of nodes in it. -/
theorem decidedInside_of_recordAll {n : Node} {make : List Record → Record}
    (hField : n.recordField = (do return make (← recordAll n.children)))
    (hOwn : n.unrecorded = []) (hThere : ∀ child ∈ n.children, child ≠ missing) :
    n.DecidedInside where
  recorded_iff := by simp [hField, hOwn, bind_eq_ok_iff, pure_eq_ok, ← recordAll_ok_iff hThere]
  fault_of_error := by
    intro f hError
    rw [hField] at hError
    rcases bind_eq_error_iff.mp hError with hAll | ⟨rs, -, hPure⟩
    · exact .inr (exists_of_recordAll_error hThere hAll)
    · cases hPure

theorem ne_missing_of_isExpression {n : Node} (h : IsExpression n) : n ≠ missing := by
  rintro rfl
  cases h

theorem ne_missing_of_isStatement {n : Node} (h : IsStatement n) : n ≠ missing := by
  rintro rfl
  cases h

theorem ne_empty_of_isName {word : String} (h : Lexer.IsName word) : word ≠ "" := by
  rintro rfl
  obtain ⟨first, rest, hWord, -⟩ := h.spelled
  cases hWord

section kinds

variable {n : Node}

attribute [local simp] recordField unrecorded children Record.typeField bind_eq_ok_iff
  bind_eq_error_iff pure_eq_ok

/-- Whether an expression has a record is decided by what stands in it, and an
access to a member has none. The name of a member is not empty, so it is asked
for a record of its own. -/
theorem decidedInside_expression (h : IsExpression n) : n.DecidedInside := by
  cases h with
  | call called given =>
      have hThere := fun a ha => ne_missing_of_isExpression (given a ha)
      refine ⟨by simp [recordAll_ok_iff hThere], ?_⟩
      intro f hError
      rcases bind_eq_error_iff.mp hError with hFunction | ⟨r, -, hRest⟩
      · exact .inr ⟨_, .head _, hFunction⟩
      · rcases bind_eq_error_iff.mp hRest with hAll | ⟨rs, -, hPure⟩
        · obtain ⟨a, ha, hFault⟩ := exists_of_recordAll_error hThere hAll
          exact .inr ⟨a, .tail _ ha, hFault⟩
        · cases hPure
  | member inner named =>
      have hName := ne_empty_of_isName named
      refine ⟨by simp [hName, throw_eq_error], ?_⟩
      intro f hError
      rcases bind_eq_error_iff.mp hError with hObject | ⟨r, -, hRest⟩
      · exact .inr ⟨_, .head _, hObject⟩
      · rw [if_neg hName] at hRest
        cases hRest
        exact .inl ⟨_, .head _, rfl⟩
  | number | string | bool | identifier => exact RecordsInOrder.decidedInside (.done _) rfl
  | negation | await => exact RecordsInOrder.decidedInside (.next fun _ => .done _) rfl
  | assignment | binary =>
      exact RecordsInOrder.decidedInside (.next fun _ => .next fun _ => .done _) rfl

/-- Whether a cryptographic or quantum operation has a record is decided by
what stands in it. -/
theorem decidedInside_operation (h : IsOperation n) : n.DecidedInside := by
  cases h with
  | keyGeneration | publicKey | measurement => exact RecordsInOrder.decidedInside (.done _) rfl
  | hashing => exact RecordsInOrder.decidedInside (.next fun _ => .done _) rfl
  | encryption | decryption | signing =>
      exact RecordsInOrder.decidedInside (.next fun _ => .next fun _ => .done _) rfl
  | verification =>
      exact RecordsInOrder.decidedInside (.next fun _ => .next fun _ => .next fun _ => .done _) rfl

/-- Whether a statement has a record is decided by its own types and by what
stands in it. The types of parameters and of a result stand in the function
itself. -/
theorem decidedInside_statement (h : IsStatement n) : n.DecidedInside := by
  cases h with
  | @declaration name type value constant =>
      cases type with
      | none => exact ⟨by simp, by simp⟩
      | some t =>
          refine ⟨by simp, ?_⟩
          intro f hError
          cases hError
          exact .inl ⟨_, .head _, rfl⟩
  | @function name parameters result inside async typed written statements returns =>
      refine ⟨by simp, ?_⟩
      intro f hError
      rw [unrecorded]
      rcases bind_eq_error_iff.mp hError with hParameters | ⟨rs, -, hRest⟩
      · obtain ⟨kind, hKind, hFault⟩ := exists_of_parameters_error hParameters
        exact .inl ⟨kind, List.mem_append_left _ hKind, hFault⟩
      · cases hRest
        exact .inl ⟨_, List.mem_append_right _ (.head _), rfl⟩
  | «class» statements =>
      exact decidedInside_of_recordAll rfl rfl fun s hs =>
        ne_missing_of_isStatement (statements s hs)
  | gate named =>
      refine decidedInside_of_recordAll rfl rfl fun q hq => ?_
      obtain ⟨word, -, rfl⟩ := named q hq
      rintro ⟨⟩
  | deleted | connect | query | qubit => exact RecordsInOrder.decidedInside (.done _) rfl
  | shown | saved | returned | returnNothing | thrown | expression | transaction =>
      exact RecordsInOrder.decidedInside (.next fun _ => .done _) rfl
  | loop | forEach => exact RecordsInOrder.decidedInside (.next fun _ => .next fun _ => .done _) rfl
  | branch | branches =>
      exact RecordsInOrder.decidedInside (.next fun _ => .next fun _ => .next fun _ => .done _) rfl
  | tryAlone | tryCatch | tryCatchFinally | tryFinally =>
      exact RecordsInOrder.decidedInside
        (.next fun _ => .next fun _ => .next fun _ => .next fun _ => .done _) rfl
  | operation => exact ⟨by simp, by simp⟩

/-- One step: every part of a parsed script is recorded or not by what it is
made of. -/
theorem decidedInside_part (h : IsPart n) : n.DecidedInside := by
  cases h with
  | missing => exact RecordsInOrder.decidedInside (.done _) rfl
  | expression formed => exact decidedInside_expression formed
  | operation formed => exact decidedInside_operation formed
  | statement formed => exact decidedInside_statement formed
  | block formed | program formed =>
      exact decidedInside_of_recordAll rfl rfl fun s hs => ne_missing_of_isStatement (formed s hs)

end kinds

/-! ### Whole scripts -/

/-- A part is recorded exactly if nothing in it lacks a record, at any
depth. -/
theorem recordField_ok_iff {n : Node} (h : IsPart n) :
    (∃ r, recordField n = .ok r) ↔ ∀ part : Node, part.Occurs n → part.unrecorded = [] := by
  have hChildren : ∀ child ∈ n.children, (∃ r, recordField child = .ok r) ↔
      ∀ part : Node, part.Occurs child → part.unrecorded = [] :=
    fun child hChild => recordField_ok_iff (h.step.2 child hChild)
  rw [(decidedInside_part h).recorded_iff]
  constructor
  · rintro ⟨hOwn, hInside⟩ part hOccurs
    cases hOccurs with
    | here => exact hOwn
    | inside hChild hDeeper => exact (hChildren _ hChild).mp (hInside _ hChild) part hDeeper
  · intro hAll
    exact ⟨hAll n .here, fun child hChild =>
      (hChildren child hChild).mpr fun part hOccurs => hAll part (.inside hChild hOccurs)⟩
termination_by sizeOf n
decreasing_by exact sizeOf_lt_of_mem_children hChild

/-- The fault names the kind of something in the part that lacks a record. -/
theorem exists_of_recordField_error {n : Node} (h : IsPart n) {f : Fault}
    (hError : recordField n = .error f) :
    ∃ part : Node, part.Occurs n ∧ ∃ kind ∈ part.unrecorded, f = noRecord kind := by
  rcases (decidedInside_part h).fault_of_error f hError with hOwn | ⟨child, hChild, hInside⟩
  · exact ⟨n, .here, hOwn⟩
  · obtain ⟨part, hOccurs, hKind⟩ :=
      exists_of_recordField_error (h.step.2 child hChild) hInside
    exact ⟨part, .inside hChild hOccurs, hKind⟩
termination_by sizeOf n
decreasing_by exact sizeOf_lt_of_mem_children hChild

/-- Neither a variable with a type, nor a function, nor an access to a
member. -/
def isPlain : Node → Bool
  | declaration _ type _ _ => type.isNone
  | functionDeclaration _ _ _ _ _ | member _ _ => false
  | _ => true

/-- A function that a script declares has a type for its result, written or
not. -/
theorem unrecorded_eq_nil_iff {n : Node} (h : IsPart n) :
    n.unrecorded = [] ↔ n.isPlain = true := by
  cases h with
  | missing | block | program => simp [unrecorded, isPlain]
  | expression formed => cases formed <;> simp [unrecorded, isPlain]
  | operation formed => cases formed <;> simp [unrecorded, isPlain]
  | statement formed => cases formed <;> simp [unrecorded, isPlain]

end Node

namespace Parse

open Node

/-- A parsed script has a record exactly if no variable in it is declared with
a type, no function is declared and no member is accessed, at any depth.
Otherwise recording fails for want of a record of a type, or of the name of a
member. -/
theorem record_parsed (source : String) (ns : List Node)
    (hTree : (parse .refuse source).tree = .ok (.program ns)) :
    ((∃ r, (Node.program ns).record = .ok r) ↔ ∀ part : Node, part.Occurs (.program ns) →
      part.isPlain = true) ∧
    ∀ f, (Node.program ns).record = .error f →
      ∃ part : Node, part.Occurs (.program ns) ∧ ∃ kind ∈ part.unrecorded,
        f = noRecord kind := by
  have hRoot : IsPart (.program ns) := isPart_of_occurs hTree .here
  refine ⟨(recordField_ok_iff hRoot).trans ?_,
    fun f hError => exists_of_recordField_error hRoot hError⟩
  exact forall₂_congr fun part hOccurs => unrecorded_eq_nil_iff (.of_occurs hOccurs hRoot)

/-- A loop over a variable without a type. -/
def plainScript : String := "define x = 1\\\\ while (x < 3) \\\\ show f(x)\\\\ \\\\"

/-- A loop over a variable without a type is recorded. -/
theorem record_parsed_plainScript :
    ∃ ns r, (parse .refuse plainScript).tree = .ok (.program ns) ∧
    (Node.program ns).record = .ok r ∧ ∀ part : Node, part.Occurs (.program ns) →
      part.isPlain = true := by
  have hReturned : (returned? (parse .refuse plainScript).tree).any
      (fun ns => (Node.program ns).record.isOk) = true := by
    decide +kernel
  obtain ⟨ns, hSome, hOk⟩ := (Option.any_eq_true _ _).mp hReturned
  have hTree := eq_of_returned? hSome
  cases hRecord : (Node.program ns).record with
  | error f =>
      rw [hRecord] at hOk
      cases hOk
  | ok r =>
      exact ⟨ns, r, hTree, hRecord, (record_parsed plainScript ns hTree).1.mp ⟨r, hRecord⟩⟩

/-- Accessing a member is parsed and cannot be recorded. -/
theorem record_member_access :
    (parse .refuse "a.b\\\\").tree =
      .ok (.program [.expressionStatement (.member (.identifier "a") "b")]) ∧
      (Node.program [.expressionStatement (.member (.identifier "a") "b")]).record =
        .error (noRecord "str") := by
  have hA : Lexer.IsName "a" :=
    ⟨⟨'a', [], rfl, by decide, List.all_eq_true.mp rfl⟩, by decide⟩
  have hB : Lexer.IsName "b" :=
    ⟨⟨'b', [], rfl, by decide, List.all_eq_true.mp rfl⟩, by decide⟩
  have hEnd : Lexer.Laid [(.terminator, .text "\\\\")] "\\\\".toList :=
    .mark (by decide) stops_nil .nil
  have hMember : Lexer.Laid [(.identifier, .text "b"), (.terminator, .text "\\\\")]
      "b\\\\".toList :=
    .cons (.name hB) (Lexer.detached_cons (by decide) _ _) hEnd
  have hLaid : Lexer.Laid [(.identifier, .text "a"), (.dot, .text "."), (.identifier, .text "b"),
      (.terminator, .text "\\\\")]
      "a.b\\\\".toList :=
    .cons (.name hA) (Lexer.detached_member hB _ _)
      (.mark (by decide) (stops_cons (by decide) _) hMember)
  have hMeans : Means .refuse (.n .postfixed) [(.identifier, .text "a")]
      (.node (.identifier "a")) :=
    means_primary .identifier ⟨rfl, rfl⟩ rfl rfl
  exact ⟨tree_of_means hLaid (means_program (means_expression (means_member hMeans "b"))), rfl⟩

end Parse

end PageScript
