import PageScript.Proofs.Parse.Provenance
import PageScript.Proofs.Parse.Refusal
import PageScript.Proofs.Token.Laid

/-! What every node of a parsed program looks like. Main statement: where
elements are refused, each node of a program that a parse returns is well
formed, at every depth and also after recoveries. -/
namespace PageScript

namespace Node

/-- The nodes that stand directly in a node. -/
def children : Node → List Node
  | program statements => statements
  | block statements => statements
  | bareBlock item => [item]
  | declaration _ _ value _ => [value]
  | showStatement value => [value]
  | saveStatement _ value => [value]
  | returnStatement value => [value]
  | throwStatement value => [value]
  | expressionStatement value => [value]
  | ifStatement condition thenBlock elseBlock => [condition, thenBlock, elseBlock]
  | whileStatement condition body => [condition, body]
  | forStatement _ iterable body => [iterable, body]
  | tryStatement tryBlock catchName catchBlock finallyBlock =>
    [tryBlock, catchName, catchBlock, finallyBlock]
  | functionDeclaration _ _ _ body _ => [body]
  | classDeclaration _ members => members
  | bareClass _ item => [item]
  | transaction _ body _ => [body]
  | gate _ qubits => qubits
  | encryption _ data key _ => [data, key]
  | decryption _ data key _ => [data, key]
  | hashing _ data _ => [data]
  | signing _ data key _ => [data, key]
  | verification _ signature data key _ => [signature, data, key]
  | element _ _ content => content
  | dynamic expression => [expression]
  | await expression => [expression]
  | binary left _ right => [left, right]
  | unary _ operand => [operand]
  | call function arguments => function :: arguments
  | member object _ => [object]
  | memberNode object part => [object, part]
  | _ => []

/-- The first node is the second one, or stands somewhere in it. -/
inductive Occurs (n : Node) : Node → Prop where
  | here : Occurs n n
  | inside {child root : Node} (member : child ∈ root.children) (deeper : Occurs n child) :
      Occurs n root

/-- The kinds of nodes that are statements. -/
def isStatement : Node → Bool
  | declaration _ _ _ _ | showStatement _ | saveStatement _ _ | deleteStatement _
  | returnStatement _ | throwStatement _ | expressionStatement _ | ifStatement _ _ _
  | whileStatement _ _ | forStatement _ _ _ | tryStatement _ _ _ _ | functionDeclaration _ _ _ _ _
  | classDeclaration _ _ | connectStatement _ _
  | queryStatement _ _ | transaction _ _ _ | qubit _ | gate _ _ => true
  | _ => false

/-- What a node has to be, whatever stands in it. -/
def WellFormed : Node → Prop
  | element _ _ _ => False
  | program statements => ∀ s ∈ statements, s.isStatement = true
  | block statements => ∀ s ∈ statements, s.isStatement = true
  | bareBlock _ => False
  | classDeclaration _ members => ∀ s ∈ members, s.isStatement = true
  | bareClass _ _ => False
  | binary left operator _ =>
    operator = "=" ∨ operator = "+=" → ∃ name, left = identifier name
  | unary operator _ => operator = "!"
  | number value => (∃ n, value = .int n) ∨ ∃ x, value = .float x
  | string value => Run.IsLiteralBody value.toList
  | functionDeclaration _ _ _ body _ =>
    ∃ inside, body = block inside ∧ inside ≠ [] ∧ (searchReturns inside).found = .ok true
  | _ => True

end Node

/-! ### Every form that a script can write -/

/-- What can stand anywhere in a program. -/
inductive IsPart : Node → Prop where
  | missing : IsPart .missing
  | expression {n : Node} (formed : IsExpression n) : IsPart n
  | operation {n : Node} (formed : IsOperation n) : IsPart n
  | statement {n : Node} (formed : IsStatement n) : IsPart n
  | block {ns : List Node} (formed : ∀ n ∈ ns, IsStatement n) : IsPart (.block ns)
  | program {ns : List Node} (formed : ∀ n ∈ ns, IsStatement n) : IsPart (.program ns)

theorem isPart_string {s : String} (h : Lexer.IsLiteral s) : IsPart (.string s) :=
  .expression (.string h)

theorem isPart_pair {first second : Node} (h₁ : IsPart first) (h₂ : IsPart second) :
    ∀ child ∈ [first, second], IsPart child :=
  List.forall_mem_cons.mpr ⟨h₁, List.forall_mem_singleton.mpr h₂⟩

theorem isPart_try {inside name handler last : Node} (h₁ : IsPart inside) (h₂ : IsPart name)
    (h₃ : IsPart handler) (h₄ : IsPart last) :
    ∀ child ∈ [inside, name, handler, last], IsPart child :=
  List.forall_mem_cons.mpr ⟨h₁, List.forall_mem_cons.mpr ⟨h₂, isPart_pair h₃ h₄⟩⟩

/-- An operator between two operands does not assign. -/
theorem operator_ne_of_mem {operator : String} (h : operator ∈ binaryOperators) :
    ¬ (operator = "=" ∨ operator = "+=") := by
  have hAll : binaryOperators.all (fun known => known != "=" && known != "+=") = true := by decide
  have hKnown := List.all_eq_true.mp hAll _ h
  rw [Bool.and_eq_true, bne_iff_ne, bne_iff_ne] at hKnown
  exact fun hAssigns => hAssigns.elim hKnown.1 hKnown.2

/-- An expression that a script can write is well formed. -/
theorem IsExpression.wellFormed {n : Node} (h : IsExpression n) : n.WellFormed := by
  cases h with
  | number numeral =>
      cases numeral with
      | int short => exact .inl ⟨_, rfl⟩
      | float x => exact .inr ⟨_, rfl⟩
  | string literal => exact Lexer.isLiteral_iff.mp literal
  | assignment named assigns right => exact fun _ => ⟨_, rfl⟩
  | binary operates first second =>
      exact fun hAssigns => absurd hAssigns (operator_ne_of_mem operates)
  | negation inner => exact rfl
  | bool b | identifier named | await inner | call called given | member inner named => trivial

/-- What stands in an expression is part of a script. -/
theorem IsExpression.isPart_children {n : Node} (h : IsExpression n) :
    ∀ child ∈ n.children, IsPart child := by
  cases h with
  | number numeral | string literal | bool b | identifier named => exact List.forall_mem_nil _
  | assignment named assigns right =>
      exact isPart_pair (.expression (.identifier named)) (.expression right)
  | binary operates first second => exact isPart_pair (.expression first) (.expression second)
  | negation inner | await inner | member inner named =>
      exact List.forall_mem_singleton.mpr (.expression inner)
  | call called given =>
      exact List.forall_mem_cons.mpr ⟨.expression called,
        fun child hChild => .expression (given child hChild)⟩

theorem IsOperation.wellFormed {n : Node} (h : IsOperation n) : n.WellFormed := by
  cases h <;> trivial

/-- The data and the keys of an operation are literals. -/
theorem IsOperation.isPart_children {n : Node} (h : IsOperation n) :
    ∀ child ∈ n.children, IsPart child := by
  cases h with
  | keyGeneration | publicKey | measurement => exact List.forall_mem_nil _
  | hashing first => exact List.forall_mem_singleton.mpr (isPart_string first)
  | encryption first second | decryption first second | signing first second =>
      exact isPart_pair (isPart_string first) (isPart_string second)
  | verification first second third =>
      exact List.forall_mem_cons.mpr ⟨isPart_string first,
        isPart_pair (isPart_string second) (isPart_string third)⟩

theorem IsStatement.isStatement {n : Node} (h : IsStatement n) : n.isStatement = true := by
  cases h <;> rfl

/-- Nothing is found in an empty body. -/
theorem ne_nil_of_searchReturns {inside : List Node}
    (h : (Node.searchReturns inside).found = .ok true) :
    inside ≠ [] := by
  rintro rfl
  cases h

/-- A statement that a script can write is well formed. -/
theorem IsStatement.wellFormed {n : Node} (h : IsStatement n) : n.WellFormed := by
  cases h with
  | function typed written statements returns =>
      exact ⟨_, rfl, ne_nil_of_searchReturns returns, returns⟩
  | «class» statements => exact fun member hMember => (statements member hMember).isStatement
  | _ => trivial

/-- What stands in a statement is part of a script. One case for each sort of
statement, with its expressions and its blocks. -/
theorem IsStatement.isPart_children {n : Node} (h : IsStatement n) :
    ∀ child ∈ n.children, IsPart child := by
  cases h with
  | deleted | connect | query | qubit => exact List.forall_mem_nil _
  | declaration written valued => exact List.forall_mem_singleton.mpr (.expression valued)
  | operation valued => exact List.forall_mem_singleton.mpr (.operation valued)
  | shown valued | saved valued | returned valued | thrown valued | expression valued =>
      exact List.forall_mem_singleton.mpr (.expression valued)
  | returnNothing => exact List.forall_mem_singleton.mpr .missing
  | branch valued statements =>
      exact List.forall_mem_cons.mpr
        ⟨.expression valued, isPart_pair (.block statements) .missing⟩
  | branches valued statements otherwise =>
      exact List.forall_mem_cons.mpr ⟨.expression valued,
        isPart_pair (.block statements) (.block otherwise)⟩
  | loop valued statements | forEach valued statements =>
      exact isPart_pair (.expression valued) (.block statements)
  | tryAlone statements => exact isPart_try (.block statements) .missing .missing .missing
  | tryCatch statements named handles =>
      exact isPart_try (.block statements) (.expression (.identifier named))
        (.block handles) .missing
  | tryCatchFinally statements named handles ends =>
      exact isPart_try (.block statements) (.expression (.identifier named)) (.block handles)
        (.block ends)
  | tryFinally statements ends =>
      exact isPart_try (.block statements) .missing .missing (.block ends)
  | transaction statements | function typed written statements =>
      exact List.forall_mem_singleton.mpr (.block statements)
  | «class» statements => exact fun member hMember => .statement (statements member hMember)
  | gate named =>
      intro qubit hQubit
      obtain ⟨word, hWord, rfl⟩ := named qubit hQubit
      exact .expression (.identifier hWord)

/-- One step: a part is well formed, and what stands in it are parts again. -/
theorem IsPart.step {n : Node} (h : IsPart n) :
    n.WellFormed ∧ ∀ child ∈ n.children, IsPart child := by
  cases h with
  | missing => exact ⟨trivial, List.forall_mem_nil _⟩
  | expression formed => exact ⟨formed.wellFormed, formed.isPart_children⟩
  | operation formed => exact ⟨formed.wellFormed, formed.isPart_children⟩
  | statement formed => exact ⟨formed.wellFormed, formed.isPart_children⟩
  | block formed | program formed =>
      exact ⟨fun s hs => (formed s hs).isStatement, fun s hs => .statement (formed s hs)⟩

/-- Whatever occurs in a part of a script is part of a script, at every
depth. -/
theorem IsPart.of_occurs {n root : Node} (h : n.Occurs root) (hRoot : IsPart root) : IsPart n := by
  induction h with
  | here => exact hRoot
  | inside member _ ih => exact ih (hRoot.step.2 _ member)

namespace Parse

/-- A program that a parse returns holds parts only, at every depth. -/
theorem isPart_of_occurs {source : String} {ns : List Node}
    (hTree : (parse .refuse source).tree = .ok (.program ns)) {n : Node}
    (h : n.Occurs (.program ns)) : IsPart n := by
  obtain hMissing | ⟨statements, hProgram, hStatements⟩ := formed_of_tree hTree
  · cases hMissing
  · cases hProgram
    exact IsPart.of_occurs h (.program hStatements)

/-- Where elements are refused, every node of a program that a parse returns is
well formed, at every depth and whatever the parse has recovered from. -/
theorem wellFormed_of_parse (source : String) (ns : List Node)
    (hTree : (parse .refuse source).tree = .ok (.program ns)) :
    ∀ n : Node, n.Occurs (.program ns) → n.WellFormed := by
  intro n hOccurs
  exact (isPart_of_occurs hTree hOccurs).step.1

/-- A function without a return statement, which is dropped, and three
statements behind it. -/
def recoveredScript : String :=
  "function f():int \\\\ show 1\\\\ \\\\ show 2\\\\ x = -1\\\\ function g():int \\\\ return !\"a\\\"\"\\\\ \\\\"

/-- The parse fails to build a function and goes on; the program that it
returns is well formed. -/
theorem wellFormed_of_parse_recoveredScript :
    ∃ ns : List Node,
      failuresOf .refuse recoveredScript (Lexer.lexemes recoveredScript) ≠ [] ∧
      (parse .refuse recoveredScript).tree = .ok (.program ns) ∧
      ns.map Node.kindName = ["ShowStatementNode", "ExpressionStatementNode",
        "FunctionDeclarationNode"] ∧
      ∀ n : Node, n.Occurs (.program ns) → n.WellFormed := by
  have hFailed : (failuresOf .refuse recoveredScript (Lexer.lexemes recoveredScript)).isEmpty =
      false := by
    decide +kernel
  have hReturned : (returned? (parse .refuse recoveredScript).tree).any
      (fun ns => ns.map Node.kindName ==
      ["ShowStatementNode", "ExpressionStatementNode", "FunctionDeclarationNode"]) = true := by
    decide +kernel
  obtain ⟨ns, hSome, hKinds⟩ := (Option.any_eq_true _ _).mp hReturned
  have hTree := eq_of_returned? hSome
  refine ⟨ns, ?_, hTree, beq_iff_eq.mp hKinds, wellFormed_of_parse recoveredScript ns hTree⟩
  intro hNil
  rw [hNil] at hFailed
  cases hFailed

end Parse

end PageScript
