import PageScript.Proofs.Parse.WellFormed
import PageScript.Proofs.Sequencing
import PageScript.Tree.Record

/-! Reading trees back from their records. Main statement: a tree in which no
member has the empty name is read back from its record, so no two such trees
share one. An empty name is recorded as if the member were missing. -/
namespace PageScript

namespace Record

/-- What a record can be read as: plain data, a node, or the nodes of a
list. -/
structure Reading where
  raw : Record
  node? : Option Node
  nodes? : Option (List Node)

namespace Reading

def value? (x : Reading) : Option Value :=
  match x.raw with
  | .value v => some v
  | _ => none

def text? (x : Reading) : Option String :=
  match x.raw with
  | .value (.text s) => some s
  | _ => none

def flag? (x : Reading) : Option Bool :=
  match x.raw with
  | .value (.bool b) => some b
  | _ => none

/-- A text that may be absent. -/
def optional? (x : Reading) : Option (Option String) :=
  match x.raw with
  | .value .none => some none
  | .value (.text s) => some (some s)
  | _ => none

def keyType? (x : Reading) : Option KeyType :=
  match x.raw with
  | .value .none => some .unknown
  | .type t => some (.type t)
  | .value (.text s) => some (.word s)
  | _ => none

/-- The name of an identifier. -/
def name? (x : Reading) : Option String :=
  match x.node? with
  | some (.identifier name) => some name
  | _ => none

def parameter? : Node → Option Parameter
  | .parameter p => some p
  | _ => none

def parameters? (x : Reading) : Option (List Parameter) :=
  x.nodes?.bind fun nodes => nodes.mapM parameter?

def attribute? : String × Record → Option (String × String)
  | (name, .value (.text s)) => some (name, s)
  | _ => none

def attributes? (x : Reading) : Option (Table String) :=
  match x.raw with
  | .fields entries => (entries.mapM attribute?).map Table.mk
  | _ => none

end Reading

/-- What stands under a key, where it first occurs. -/
def keyed? {α : Type} (key : String) : List (String × α) → Option α
  | [] => none
  | (name, x) :: rest => if name = key then some x else keyed? key rest

/-- The readings of the fields of a record. -/
structure Fields where
  entries : List (String × Reading)

namespace Fields

variable (f : Fields) (key : String)

def node : Option Node := (keyed? key f.entries).bind Reading.node?

def nodes : Option (List Node) := (keyed? key f.entries).bind Reading.nodes?

def value : Option Value := (keyed? key f.entries).bind Reading.value?

def text : Option String := (keyed? key f.entries).bind Reading.text?

def flag : Option Bool := (keyed? key f.entries).bind Reading.flag?

def optional : Option (Option String) := (keyed? key f.entries).bind Reading.optional?

def keyType : Option KeyType := (keyed? key f.entries).bind Reading.keyType?

def name : Option String := (keyed? key f.entries).bind Reading.name?

def parameters : Option (List Parameter) := (keyed? key f.entries).bind Reading.parameters?

def attributes : Option (Table String) := (keyed? key f.entries).bind Reading.attributes?

end Fields

/-- How a node of each type is put together from its fields. Types have no
record, so none is read. -/
def formers : List (String × (Fields → Option Node)) :=
  [("Program", fun f => return .program (← f.nodes "statements")),
    ("Block", fun f => return .block (← f.nodes "statements")),
    ("VariableDeclaration", fun f =>
      return .declaration (← f.text "name") none (← f.node "value") (← f.flag "const")),
    ("ShowStatement", fun f => return .showStatement (← f.node "value")),
    ("SaveStatement", fun f =>
      return .saveStatement (← f.text "identifier") (← f.node "value")),
    ("DeleteStatement", fun f => return .deleteStatement (← f.text "identifier")),
    ("ReturnStatement", fun f => return .returnStatement (← f.node "expression")),
    ("ThrowStatement", fun f => return .throwStatement (← f.node "expression")),
    ("ExpressionStatement", fun f => return .expressionStatement (← f.node "expression")),
    ("IfStatement", fun f =>
      return .ifStatement (← f.node "condition") (← f.node "then_block")
        (← f.node "else_block")),
    ("WhileStatement", fun f =>
      return .whileStatement (← f.node "condition") (← f.node "body")),
    ("ForStatement", fun f =>
      return .forStatement (← f.name "iterator") (← f.node "iterable") (← f.node "body")),
    ("TryCatchFinally", fun f =>
      return .tryStatement (← f.node "try_block") (← f.node "exception_var")
        (← f.node "catch_block") (← f.node "finally_block")),
    ("FunctionDeclaration", fun f =>
      return .functionDeclaration (← f.text "name") (← f.parameters "parameters") none
        (← f.node "body") (← f.flag "async_function")),
    ("Parameter", fun f => return .parameter ⟨← f.text "name", none⟩),
    ("ClassDeclaration", fun f =>
      return .classDeclaration (← f.text "name") (← f.nodes "members")),
    ("ConnectStatement", fun f =>
      return .connectStatement (← f.text "db_url") (← f.text "db_var")),
    ("QueryStatement", fun f =>
      return .queryStatement (← f.text "db_var") (← f.text "query_str")),
    ("Transaction", fun f =>
      return .transaction (← f.text "db_var") (← f.node "block") (← f.text "mode")),
    ("QuantumDefineQubit", fun f => return .qubit (← f.text "qubit_name")),
    ("QuantumApply", fun f => return .gate (← f.text "gate") (← f.nodes "qubits")),
    ("QuantumMeasure", fun f =>
      return .measurement (← f.text "var_name") (← f.text "qubit_name")),
    ("CryptoGenerateKey", fun f =>
      return .keyGeneration (← f.text "var_name") (← f.keyType "key_type")
        (← f.value "algorithm") (← f.value "size") (← f.value "db")),
    ("CryptoDerivePublicKey", fun f =>
      return .publicKey (← f.text "var_name") (← f.text "private_key_name")),
    ("CryptoEncrypt", fun f =>
      return .encryption (← f.text "var_name") (← f.node "data_expr") (← f.node "key_expr")
        (← f.optional "algorithm")),
    ("CryptoDecrypt", fun f =>
      return .decryption (← f.text "var_name") (← f.node "data_expr") (← f.node "key_expr")
        (← f.optional "algorithm")),
    ("CryptoHash", fun f =>
      return .hashing (← f.text "var_name") (← f.node "data_expr")
        (← f.optional "algorithm")),
    ("CryptoSign", fun f =>
      return .signing (← f.text "var_name") (← f.node "data_expr") (← f.node "key_expr")
        (← f.optional "algorithm")),
    ("CryptoVerify", fun f =>
      return .verification (← f.text "var_name") (← f.node "signature_expr")
        (← f.node "data_expr") (← f.node "key_expr") (← f.optional "algorithm")),
    ("JTMLElement", fun f =>
      return .element (← f.text "tag_name") (← f.attributes "attributes")
        (← f.nodes "content")),
    ("TextNode", fun f => return .text (← f.text "value")),
    ("DynamicExpression", fun f => return .dynamic (← f.node "expression")),
    ("AwaitExpression", fun f => return .await (← f.node "expression")),
    ("BinaryOperation", fun f =>
      return .binary (← f.node "left") (← f.text "op") (← f.node "right")),
    ("UnaryOperation", fun f => return .unary (← f.text "op") (← f.node "operand")),
    ("NumberLiteral", fun f => return .number (← f.value "value")),
    ("StringLiteral", fun f => return .string (← f.text "value")),
    ("BoolLiteral", fun f => return .bool (← f.flag "value")),
    ("Identifier", fun f => return .identifier (← f.text "name")),
    ("FunctionCall", fun f => return .call (← f.node "function") (← f.nodes "arguments")),
    ("MemberAccess", fun f => return .memberNode (← f.node "object") (← f.node "member"))]

def assemble (f : Fields) : Option Node := do
  let type ← f.text "type"
  let former ← keyed? type formers
  former f

mutual

/-- A record read from the inside out. -/
def reading : Record → Reading
  | .value v => ⟨.value v, match v with | .none => some .missing | _ => none, none⟩
  | .type t => ⟨.type t, none, none⟩
  | .list items => ⟨.list items, none, (readingAll items).mapM Reading.node?⟩
  | .fields entries => ⟨.fields entries, assemble ⟨readingFields entries⟩, none⟩

def readingAll : List Record → List Reading
  | [] => []
  | r :: rest => reading r :: readingAll rest

def readingFields : List (String × Record) → List (String × Reading)
  | [] => []
  | (name, r) :: rest => (name, reading r) :: readingFields rest

end

/-- The node that a record stands for. -/
def decode (r : Record) : Option Node :=
  (reading r).node?

section readings

/-- The record of a node is read by the former of its type, applied to the
readings of its fields. -/
theorem reading_ofNode (type : String) (entries : List (String × Record)) :
    reading (ofNode type entries) =
      ⟨ofNode type entries,
        (keyed? type formers).bind
          (· ⟨("type", reading (text type)) :: readingFields entries⟩), none⟩ :=
  rfl

/-- Records of nodes in a list are read as nodes in a list. -/
theorem reading_cons {r : Record} {rs : List Record} {n : Node} {ns : List Node}
    (hNode : reading r = ⟨r, some n, none⟩)
    (hNodes : reading (.list rs) = ⟨.list rs, none, some ns⟩) :
    reading (.list (r :: rs)) = ⟨.list (r :: rs), none, some (n :: ns)⟩ := by
  have hAll : (readingAll rs).mapM Reading.node? = some ns := congrArg Reading.nodes? hNodes
  simp [reading, readingAll, hNode, hAll]

theorem typeField_ok {type : Option Ty} {r : Record} (h : typeField type = .ok r) :
    type = none := by
  cases type with
  | none => rfl
  | some t => cases h

theorem reading_parameter {p : Parameter} {r : Record} (h : parameter p = .ok r) :
    reading r = ⟨r, some (.parameter p), none⟩ := by
  obtain ⟨name, type⟩ := p
  obtain ⟨typed, hType, hRest⟩ := bind_eq_ok_iff.mp h
  cases typeField_ok hType
  cases hRest
  rfl

/-- Parameters that have records are read back from the list of these. -/
theorem reading_parameters {ps : List Parameter} {rs : List Record}
    (h : ps.mapM parameter = .ok rs) :
    reading (.list rs) = ⟨.list rs, none, some (ps.map .parameter)⟩ := by
  induction ps generalizing rs with
  | nil =>
      cases h
      rfl
  | cons p ps ih =>
      rw [List.mapM_cons] at h
      obtain ⟨r, hFirst, h⟩ := bind_eq_ok_iff.mp h
      obtain ⟨others, hOthers, h⟩ := bind_eq_ok_iff.mp h
      cases h
      exact reading_cons (reading_parameter hFirst) (ih hOthers)

theorem mapM_parameter? (ps : List Parameter) :
    (ps.map Node.parameter).mapM Reading.parameter? = some ps := by
  induction ps with
  | nil => rfl
  | cons p ps ih => simp [Reading.parameter?, ih]

theorem parameters?_reading {ps : List Parameter} {rs : List Record}
    (h : ps.mapM parameter = .ok rs) :
    (reading (.list rs)).parameters? = some ps := by
  rw [reading_parameters h]
  exact mapM_parameter? ps

/-- Attributes are read back from their record as a table, in their order. -/
theorem attributes?_reading (table : Table String) :
    (reading (attributes table)).attributes? = some table := by
  obtain ⟨entries⟩ := table
  have hEntries : (entries.map fun entry => (entry.1, text entry.2)).mapM Reading.attribute? =
      some entries := by
    induction entries with
    | nil => rfl
    | cons entry entries ih =>
        rw [List.map_cons, List.mapM_cons, ih]
        rfl
  exact congrArg (Option.map Table.mk) hEntries

end readings

end Record

namespace Node

open Record

/-- No member in the tree has the empty name. -/
def NamesMembers (n : Node) : Prop :=
  ∀ object, ¬ Occurs (.member object "") n

/-- A tree names its members if its root does and all that stands in it
does. -/
theorem NamesMembers.of_children {n : Node} (hHere : ∀ object, member object "" ≠ n)
    (hChildren : ∀ c ∈ n.children, c.NamesMembers) : n.NamesMembers := by
  intro object hOccurs
  cases hOccurs with
  | here => exact hHere object rfl
  | inside hMember hDeeper => exact hChildren _ hMember object hDeeper

theorem NamesMembers.child {n c : Node} (h : n.NamesMembers) (hChild : c ∈ n.children) :
    c.NamesMembers :=
  fun object hOccurs => h object (.inside hChild hOccurs)

/-- Nodes have records only if the first one has one and the others have
theirs. -/
theorem recordAll_cons_ok {n : Node} {ns : List Node} {rs : List Record}
    (h : recordAll (n :: ns) = .ok rs) :
    ∃ first others, recordField n = .ok first ∧ recordAll ns = .ok others ∧
      rs = first :: others := by
  cases n with
  | missing => cases h
  | _ =>
      obtain ⟨first, hFirst, h⟩ := bind_eq_ok_iff.mp h
      obtain ⟨others, hOthers, h⟩ := bind_eq_ok_iff.mp h
      cases h
      exact ⟨first, others, hFirst, hOthers, rfl⟩

mutual

/-- A node is read from the readings of the records in it. One case for each
sort of node; a record names the sort, and the fields are found by their
keys. -/
theorem reading_of_recordField (n : Node) {r : Record} (h : recordField n = .ok r)
    (hNamed : n.NamesMembers) :
    reading r = ⟨r, some n, none⟩ := by
  cases n with
  | blank | blankExpression | emptyStatement | bareBlock | bareClass => cases h
  | missing | deleteStatement | connectStatement | queryStatement | qubit | measurement | publicKey
  | text | number | string | bool | identifier =>
      cases h
      rfl
  | keyGeneration _ keyType =>
      cases h
      cases keyType <;> rfl
  | parameter p => exact reading_parameter h
  | showStatement value | returnStatement value | throwStatement value | expressionStatement value
  | dynamic value | await value | saveStatement _ value | transaction _ value _ | unary _ value =>
      obtain ⟨record, hRecord, h⟩ := bind_eq_ok_iff.mp h
      have hValue := reading_of_recordField value hRecord (hNamed.child (.head _))
      cases h
      rw [reading_ofNode]
      simp only [readingFields, hValue]
      rfl
  | hashing _ value algorithm =>
      obtain ⟨record, hRecord, h⟩ := bind_eq_ok_iff.mp h
      have hValue := reading_of_recordField value hRecord (hNamed.child (.head _))
      cases h
      rw [reading_ofNode]
      simp only [readingFields, hValue]
      cases algorithm <;> rfl
  | declaration name type value constant =>
      obtain ⟨typed, hType, hRest⟩ := bind_eq_ok_iff.mp h
      obtain ⟨record, hRecord, hWhole⟩ := bind_eq_ok_iff.mp hRest
      have hValue := reading_of_recordField value hRecord (hNamed.child (.head _))
      cases typeField_ok hType
      cases hWhole
      rw [reading_ofNode]
      simp only [readingFields, hValue]
      rfl
  | functionDeclaration name parameters result body async =>
      obtain ⟨records, hParameters, hTyped⟩ := bind_eq_ok_iff.mp h
      obtain ⟨typed, hType, hRest⟩ := bind_eq_ok_iff.mp hTyped
      obtain ⟨record, hRecord, hWhole⟩ := bind_eq_ok_iff.mp hRest
      have hBody := reading_of_recordField body hRecord (hNamed.child (.head _))
      cases typeField_ok hType
      cases hWhole
      rw [reading_ofNode]
      simp only [readingFields, hBody]
      show Record.Reading.mk _
        (do
          let given ← (reading (.list records)).parameters?
          return .functionDeclaration name given none body async) _ = _
      rw [parameters?_reading hParameters]
      rfl
  | whileStatement first second | forStatement _ first second | binary first _ second
  | memberNode first second =>
      obtain ⟨record, hRecord, h⟩ := bind_eq_ok_iff.mp h
      obtain ⟨other, hOther, h⟩ := bind_eq_ok_iff.mp h
      have hFirst := reading_of_recordField first hRecord (hNamed.child (.head _))
      have hSecond := reading_of_recordField second hOther (hNamed.child (.tail _ (.head _)))
      cases h
      rw [reading_ofNode]
      simp only [readingFields, hFirst, hSecond]
      rfl
  | encryption _ first second algorithm | decryption _ first second algorithm
  | signing _ first second algorithm =>
      obtain ⟨record, hRecord, h⟩ := bind_eq_ok_iff.mp h
      obtain ⟨other, hOther, h⟩ := bind_eq_ok_iff.mp h
      have hFirst := reading_of_recordField first hRecord (hNamed.child (.head _))
      have hSecond := reading_of_recordField second hOther (hNamed.child (.tail _ (.head _)))
      cases h
      rw [reading_ofNode]
      simp only [readingFields, hFirst, hSecond]
      cases algorithm <;> rfl
  | ifStatement first second third =>
      obtain ⟨record, hRecord, h⟩ := bind_eq_ok_iff.mp h
      obtain ⟨other, hOther, h⟩ := bind_eq_ok_iff.mp h
      obtain ⟨last, hLast, h⟩ := bind_eq_ok_iff.mp h
      have hFirst := reading_of_recordField first hRecord (hNamed.child (.head _))
      have hSecond := reading_of_recordField second hOther (hNamed.child (.tail _ (.head _)))
      have hThird := reading_of_recordField third hLast (hNamed.child (.tail _ (.tail _ (.head _))))
      cases h
      rw [reading_ofNode]
      simp only [readingFields, hFirst, hSecond, hThird]
      rfl
  | verification _ first second third algorithm =>
      obtain ⟨record, hRecord, h⟩ := bind_eq_ok_iff.mp h
      obtain ⟨other, hOther, h⟩ := bind_eq_ok_iff.mp h
      obtain ⟨last, hLast, h⟩ := bind_eq_ok_iff.mp h
      have hFirst := reading_of_recordField first hRecord (hNamed.child (.head _))
      have hSecond := reading_of_recordField second hOther (hNamed.child (.tail _ (.head _)))
      have hThird := reading_of_recordField third hLast (hNamed.child (.tail _ (.tail _ (.head _))))
      cases h
      rw [reading_ofNode]
      simp only [readingFields, hFirst, hSecond, hThird]
      cases algorithm <;> rfl
  | tryStatement first second third fourth =>
      obtain ⟨record, hRecord, h⟩ := bind_eq_ok_iff.mp h
      obtain ⟨other, hOther, h⟩ := bind_eq_ok_iff.mp h
      obtain ⟨handler, hHandler, h⟩ := bind_eq_ok_iff.mp h
      obtain ⟨last, hLast, h⟩ := bind_eq_ok_iff.mp h
      have hFirst := reading_of_recordField first hRecord (hNamed.child (.head _))
      have hSecond := reading_of_recordField second hOther (hNamed.child (.tail _ (.head _)))
      have hThird :=
        reading_of_recordField third hHandler (hNamed.child (.tail _ (.tail _ (.head _))))
      have hFourth :=
        reading_of_recordField fourth hLast (hNamed.child (.tail _ (.tail _ (.tail _ (.head _)))))
      cases h
      rw [reading_ofNode]
      simp only [readingFields, hFirst, hSecond, hThird, hFourth]
      rfl
  | program nodes | block nodes | classDeclaration _ nodes | gate _ nodes =>
      obtain ⟨records, hRecords, h⟩ := bind_eq_ok_iff.mp h
      have hNodes := reading_of_recordAll nodes hRecords fun c hc => hNamed.child hc
      cases h
      rw [reading_ofNode]
      simp only [readingFields, hNodes]
      rfl
  | element tag attributes content =>
      obtain ⟨records, hRecords, h⟩ := bind_eq_ok_iff.mp h
      have hContent := reading_of_recordAll content hRecords fun c hc => hNamed.child hc
      cases h
      rw [reading_ofNode]
      simp only [readingFields, hContent]
      show Record.Reading.mk _
        (do return .element tag (← (reading (Record.attributes attributes)).attributes?) content)
          _ = _
      rw [attributes?_reading]
      rfl
  | call function arguments =>
      obtain ⟨record, hRecord, h⟩ := bind_eq_ok_iff.mp h
      obtain ⟨records, hRecords, h⟩ := bind_eq_ok_iff.mp h
      have hFunction := reading_of_recordField function hRecord (hNamed.child (.head _))
      have hArguments :=
        reading_of_recordAll arguments hRecords fun c hc => hNamed.child (.tail _ hc)
      cases h
      rw [reading_ofNode]
      simp only [readingFields, hFunction, hArguments]
      rfl
  | member object name =>
      obtain ⟨record, hRecord, h⟩ := bind_eq_ok_iff.mp h
      by_cases hEmpty : name = ""
      · subst hEmpty
        exact absurd .here (hNamed object)
      · rw [if_neg hEmpty] at h
        cases h

/-- Nodes that have records are read back from the list of these, if they name
their members. -/
theorem reading_of_recordAll (ns : List Node) {rs : List Record} (h : recordAll ns = .ok rs)
    (hNamed : ∀ n ∈ ns, n.NamesMembers) :
    reading (.list rs) = ⟨.list rs, none, some ns⟩ := by
  cases ns with
  | nil =>
      cases h
      rfl
  | cons n ns =>
      obtain ⟨first, others, hFirst, hOthers, rfl⟩ := recordAll_cons_ok h
      exact reading_cons (reading_of_recordField n hFirst (hNamed n (.head _)))
        (reading_of_recordAll ns hOthers fun c hc => hNamed c (.tail _ hc))

end

/-- A node that has a record has the same one where it stands in another. -/
theorem recordField_of_record {n : Node} {r : Record} (h : n.record = .ok r) :
    n.recordField = .ok r := by
  cases n with
  | missing => cases h
  | _ => exact h

/-- A tree in which no member has the empty name is read back from its record,
so it is the only such tree with that record. -/
theorem decode_record {m : Node} {r : Record} (hRecord : m.record = .ok r)
    (hNamed : m.NamesMembers) :
    decode r = some m ∧ ∀ n : Node, n.record = .ok r → n.NamesMembers → n = m := by
  have hDecode {n : Node} (h : n.record = .ok r) (hNames : n.NamesMembers) : decode r = some n :=
    congrArg Reading.node? (reading_of_recordField n (recordField_of_record h) hNames)
  refine ⟨hDecode hRecord hNamed, fun n h hNames => ?_⟩
  exact Option.some.inj ((hDecode h hNames).symm.trans (hDecode hRecord hNamed))

/-- A branch that shows a member given by a node. -/
def branchingTree : Node :=
  .ifStatement (.bool true) (.block
    [.showStatement (.memberNode (.identifier "a") (.identifier "b"))]) .missing

/-- No member in the tree has an empty name. -/
theorem namesMembers_branchingTree : branchingTree.NamesMembers := by
  have hLeaf {n : Node} (hHere : ∀ object, member object "" ≠ n) (hNone : n.children = []) :
      n.NamesMembers :=
    .of_children hHere (by simp [hNone])
  have hMember : (memberNode (.identifier "a") (.identifier "b")).NamesMembers :=
    .of_children (by simp)
      (List.forall_mem_cons.mpr ⟨hLeaf (by simp) rfl,
        List.forall_mem_singleton.mpr (hLeaf (by simp) rfl)⟩)
  have hShown : (showStatement (.memberNode (.identifier "a") (.identifier "b"))).NamesMembers :=
    .of_children (by simp) (List.forall_mem_singleton.mpr hMember)
  have hBlock :
      (block [.showStatement (.memberNode (.identifier "a") (.identifier "b"))]).NamesMembers :=
    .of_children (by simp) (List.forall_mem_singleton.mpr hShown)
  refine .of_children (by simp [branchingTree])
    (List.forall_mem_cons.mpr ⟨hLeaf (by simp) rfl, ?_⟩)
  exact List.forall_mem_cons.mpr ⟨hBlock, List.forall_mem_singleton.mpr (hLeaf (by simp) rfl)⟩

/-- The branch and the member in it are read back from the record of the
tree. -/
theorem decode_record_branchingTree :
    branchingTree.NamesMembers ∧ ∃ r, branchingTree.record = .ok r ∧
      decode r = some branchingTree :=
  ⟨namesMembers_branchingTree, _, rfl, (decode_record rfl namesMembers_branchingTree).1⟩

/-- A member with the empty name and a missing member have one record, so
nothing reads both back. -/
theorem no_decoder_of_empty_name :
    ¬ ∃ read : Record → Option Node, ∀ (n : Node) (r : Record), n.record = .ok r →
      read r = some n := by
  rintro ⟨read, hRead⟩
  have hNamed := hRead (.member (.identifier "a") "") _ rfl
  have hMissing := hRead (.memberNode (.identifier "a") .missing) _ rfl
  cases hNamed.symm.trans hMissing

end Node

end PageScript
