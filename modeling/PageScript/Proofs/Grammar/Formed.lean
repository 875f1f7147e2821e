import PageScript.Proofs.Grammar.Value
import PageScript.Proofs.Token.Spelling

/-! The trees that the grammar builds. Expressions, statements and types are
said by what they are made of, and every rule makes what its symbol stands for.
Main statement: where elements are refused, the value of a derivation over
scanned tokens is of that form. -/
namespace PageScript

open Lexer (IsLiteral IsName)

/-- A type that a script can write. -/
inductive Ty.IsWritten : Ty → Prop where
  | int : IsWritten .int
  | float : IsWritten .float
  | string : IsWritten .string
  | bool : IsWritten .bool
  | void : IsWritten .void
  | custom (name : String) : IsWritten (.custom name)
  | generic {name : String} {arguments : List Ty} (written : ∀ t ∈ arguments, IsWritten t) :
      IsWritten (.generic name arguments)

/-- What a number literal holds. Whole numbers are short enough to be written
out. -/
inductive IsNumeral : Value → Prop where
  | int {n : Int} (short : (toString n.natAbs).length ≤ digitLimit) : IsNumeral (.int n)
  | float (x : Float) : IsNumeral (.float x)

/-- The operators between two operands, apart from assignments. -/
def binaryOperators : List String :=
  ["||", "&&", "==", "!=", "<", ">", "<=", ">=", "+", "-", "*", "/"]

/-- An expression that a script can write. -/
inductive IsExpression : Node → Prop where
  | number {v : Value} (numeral : IsNumeral v) : IsExpression (.number v)
  | string {s : String} (literal : IsLiteral s) : IsExpression (.string s)
  | bool (b : Bool) : IsExpression (.bool b)
  | identifier {name : String} (named : IsName name) : IsExpression (.identifier name)
  | assignment {name operator : String} {value : Node} (named : IsName name)
      (assigns : operator = "=" ∨ operator = "+=") (right : IsExpression value) :
      IsExpression (.binary (.identifier name) operator value)
  | binary {left right : Node} {operator : String} (operates : operator ∈ binaryOperators)
      (first : IsExpression left) (second : IsExpression right) :
      IsExpression (.binary left operator right)
  | negation {operand : Node} (inner : IsExpression operand) : IsExpression (.unary "!" operand)
  | await {operand : Node} (inner : IsExpression operand) : IsExpression (.await operand)
  | call {function : Node} {arguments : List Node} (called : IsExpression function)
      (given : ∀ a ∈ arguments, IsExpression a) : IsExpression (.call function arguments)
  | member {object : Node} {name : String} (inner : IsExpression object) (named : IsName name) :
      IsExpression (.member object name)

/-- What a cryptographic or quantum statement assigns to its variable. -/
inductive IsOperation : Node → Prop where
  | keyGeneration (name : String) (keyType : KeyType) (algorithm size database : Value) :
      IsOperation (.keyGeneration name keyType algorithm size database)
  | publicKey (name privateKey : String) : IsOperation (.publicKey name privateKey)
  | encryption {name data key algorithm : String} (first : IsLiteral data)
      (second : IsLiteral key) :
      IsOperation (.encryption name (.string data) (.string key) (some algorithm))
  | decryption {name data key algorithm : String} (first : IsLiteral data)
      (second : IsLiteral key) :
      IsOperation (.decryption name (.string data) (.string key) (some algorithm))
  | hashing {name data algorithm : String} (first : IsLiteral data) :
      IsOperation (.hashing name (.string data) (some algorithm))
  | signing {name data key algorithm : String} (first : IsLiteral data) (second : IsLiteral key) :
      IsOperation (.signing name (.string data) (.string key) (some algorithm))
  | verification {name signature data key algorithm : String} (first : IsLiteral signature)
      (second : IsLiteral data) (third : IsLiteral key) :
      IsOperation (.verification name (.string signature) (.string data) (.string key)
        (some algorithm))
  | measurement (name qubit : String) : IsOperation (.measurement name qubit)

/-- A statement that a script can write where elements are refused. Every block
is a list of statements, and a function has a statement that returns. -/
inductive IsStatement : Node → Prop where
  | declaration {name : String} {type : Option Ty} {value : Node} {constant : Bool}
      (written : ∀ t ∈ type, t.IsWritten) (valued : IsExpression value) :
      IsStatement (.declaration name type value constant)
  | operation {name : String} {value : Node} (valued : IsOperation value) :
      IsStatement (.declaration name none value false)
  | shown {value : Node} (valued : IsExpression value) : IsStatement (.showStatement value)
  | saved {name : String} {value : Node} (valued : IsExpression value) :
      IsStatement (.saveStatement name value)
  | deleted (name : String) : IsStatement (.deleteStatement name)
  | returned {value : Node} (valued : IsExpression value) : IsStatement (.returnStatement value)
  | returnNothing : IsStatement (.returnStatement .missing)
  | thrown {value : Node} (valued : IsExpression value) : IsStatement (.throwStatement value)
  | expression {value : Node} (valued : IsExpression value) :
      IsStatement (.expressionStatement value)
  | connect (url database : String) : IsStatement (.connectStatement url database)
  | query (database text : String) : IsStatement (.queryStatement database text)
  | branch {condition : Node} {inside : List Node} (valued : IsExpression condition)
      (statements : ∀ s ∈ inside, IsStatement s) :
      IsStatement (.ifStatement condition (.block inside) .missing)
  | branches {condition : Node} {inside others : List Node} (valued : IsExpression condition)
      (statements : ∀ s ∈ inside, IsStatement s) (otherwise : ∀ s ∈ others, IsStatement s) :
      IsStatement (.ifStatement condition (.block inside) (.block others))
  | loop {condition : Node} {inside : List Node} (valued : IsExpression condition)
      (statements : ∀ s ∈ inside, IsStatement s) :
      IsStatement (.whileStatement condition (.block inside))
  | forEach {iterator : String} {iterable : Node} {inside : List Node}
      (valued : IsExpression iterable)
      (statements : ∀ s ∈ inside, IsStatement s) :
      IsStatement (.forStatement iterator iterable (.block inside))
  | tryAlone {inside : List Node} (statements : ∀ s ∈ inside, IsStatement s) :
      IsStatement (.tryStatement (.block inside) .missing .missing .missing)
  | tryCatch {inside handler : List Node} {name : String}
      (statements : ∀ s ∈ inside, IsStatement s)
      (named : IsName name) (handles : ∀ s ∈ handler, IsStatement s) :
      IsStatement (.tryStatement (.block inside) (.identifier name) (.block handler) .missing)
  | tryCatchFinally {inside handler last : List Node} {name : String}
      (statements : ∀ s ∈ inside, IsStatement s)
      (named : IsName name) (handles : ∀ s ∈ handler, IsStatement s)
      (ends : ∀ s ∈ last, IsStatement s) :
      IsStatement (.tryStatement (.block inside) (.identifier name) (.block handler) (.block last))
  | tryFinally {inside last : List Node} (statements : ∀ s ∈ inside, IsStatement s)
      (ends : ∀ s ∈ last, IsStatement s) :
      IsStatement (.tryStatement (.block inside) .missing .missing (.block last))
  | transaction {database mode : String} {inside : List Node}
      (statements : ∀ s ∈ inside, IsStatement s) :
      IsStatement (.transaction database (.block inside) mode)
  | function {name : String} {parameters : List Parameter} {result : Ty} {inside : List Node}
      {async : Bool}
      (typed : ∀ p ∈ parameters, ∃ t, p.type = some t ∧ t.IsWritten)
      (written : result.IsWritten)
      (statements : ∀ s ∈ inside, IsStatement s)
      (returns : (Node.searchReturns inside).found = .ok true) :
      IsStatement (.functionDeclaration name parameters (some result) (.block inside) async)
  | class {name : String} {members : List Node} (statements : ∀ s ∈ members, IsStatement s) :
      IsStatement (.classDeclaration name members)
  | qubit (name : String) : IsStatement (.qubit name)
  | gate {name : String} {qubits : List Node}
      (named : ∀ q ∈ qubits, ∃ word, IsName word ∧ q = .identifier word) :
      IsStatement (.gate name qubits)

/-! ### What symbols stand for -/

/-- What a symbol stands for where elements are refused. -/
inductive Category where
  | absent | word | name | literal | operator | integer | decimal | truth | leaf
  | expression | arguments | statement | statements | block | program
  | type | types | parameter | parameters | functionHead | settings | identifiers
  /-- Nothing is built. -/
  | never
  /-- Parts of elements, which come to nothing. -/
  | any
  deriving DecidableEq

namespace Category

/-- The phrase is of this form. -/
inductive Holds : Category → Phrase → Prop where
  | absent : Holds absent .nothing
  | word (s : String) : Holds word (.leaf (.text s))
  | name {s : String} (named : IsName s) : Holds name (.leaf (.text s))
  | literal {s : String} (legal : IsLiteral s) : Holds literal (.leaf (.text s))
  | operator {s : String} (operates : s ∈ binaryOperators) : Holds operator (.leaf (.text s))
  | integer {n : Int} (short : (toString n.natAbs).length ≤ digitLimit) :
      Holds integer (.leaf (.int n))
  | decimal (x : Float) : Holds decimal (.leaf (.float x))
  | truth (b : Bool) : Holds truth (.leaf (.bool b))
  | leaf (v : Value) : Holds leaf (.leaf v)
  | expression {n : Node} (valued : IsExpression n) : Holds expression (.node n)
  | arguments {ns : List Node} (given : ∀ n ∈ ns, IsExpression n) : Holds arguments (.nodes ns)
  | statement {n : Node} (stated : IsStatement n) : Holds statement (.node n)
  | statements {ns : List Node} (stated : ∀ n ∈ ns, IsStatement n) :
      Holds statements (.nodes ns)
  | block {ns : List Node} (stated : ∀ n ∈ ns, IsStatement n) : Holds block (.node (.block ns))
  | program {ns : List Node} (stated : ∀ n ∈ ns, IsStatement n) :
      Holds program (.node (.program ns))
  | type {t : Ty} (written : t.IsWritten) : Holds type (.type t)
  | types {ts : List Ty} (written : ∀ t ∈ ts, t.IsWritten) : Holds types (.types ts)
  | parameter {name : String} {t : Ty} (written : t.IsWritten) :
      Holds parameter (.node (.parameter ⟨name, some t⟩))
  | parameters {ps : List Parameter}
      (typed : ∀ p ∈ ps, ∃ t, p.type = some t ∧ t.IsWritten) :
      Holds parameters (.parameters ps)
  | functionHead {name : String} {ps : List Parameter} {result : Ty} {async : Bool}
      (typed : ∀ p ∈ ps, ∃ t, p.type = some t ∧ t.IsWritten) (written : result.IsWritten) :
      Holds functionHead (.functionHead name ps (some result) async)
  | settings (table : Table Value) : Holds settings (.settings table)
  | identifiers {ns : List Node}
      (named : ∀ n ∈ ns, ∃ word, IsName word ∧ n = .identifier word) :
      Holds identifiers (.nodes ns)
  | any (p : Phrase) : Holds any p

end Category

namespace GrammarSymbol

/-- What a symbol stands for. A colon could stand in a literal, and some
statements take it for one. -/
def category : GrammarSymbol → Category
  | t .identifier => .name
  | t .integer => .integer
  | t .decimal => .decimal
  | t .boolean => .truth
  | t .text | t .colon => .literal
  | t .same | t .differs | t .less | t .greater | t .lessEqual | t .greaterEqual | t .plus
  | t .minus | t .times
  | t .divide => .operator
  | t _ => .word
  | n .nothing => .absent
  | n .program => .program
  | n .items | n .statements | n .blockBody => .statements
  | n .functionHead => .functionHead
  | n .functionBody => .block
  | n .parameterList | n .parametersOpt | n .parameters => .parameters
  | n .parameter => .parameter
  | n .returnType | n .type => .type
  | n .typeName | n .transactionEnd => .word
  | n .genericArguments | n .types => .types
  | n .keyKind | n .settingsOpt | n .settings | n .setting => .settings
  | n .settingValue => .leaf
  | n .identifiers => .identifiers
  | n .element | n .dynamicContent => .never
  | n .elementBody | n .emptyBody | n .attributes | n .attributePair | n .contentItems
  | n .contentItem
  | n .closingTag => .any
  | n .expression | n .assignment | n .disjunction | n .conjunction | n .equality | n .relation
  | n .sum
  | n .product | n .unary | n .postfixed | n .primary => .expression
  | n .arguments => .arguments
  | n _ => .statement

/-- The phrases are what the symbols stand for. -/
inductive HoldAll : List GrammarSymbol → List Phrase → Prop where
  | nil : HoldAll [] []
  | cons {X : GrammarSymbol} {Xs : List GrammarSymbol} {p : Phrase} {ps : List Phrase}
      (first : X.category.Holds p) (others : HoldAll Xs ps) : HoldAll (X :: Xs) (p :: ps)

end GrammarSymbol

namespace Lexer

theorem isLiteral_colon : IsLiteral ":" :=
  ⟨[':', '"'], [], rfl⟩

/-- A token stands for what its kind says. Reserved words and marks are checked
against the table of kinds, once for all of them. -/
theorem Reads.holds {kind : Terminal} {value : Value} (h : Reads kind value) :
    (GrammarSymbol.t kind).category.Holds (.leaf value) := by
  cases h with
  | truth b => exact .truth b
  | @reserved word kind listed plain =>
      have hAll : Terminal.reserved.all (fun entry =>
          entry.2 == .boolean || (GrammarSymbol.t entry.2).category == .word) = true := by decide
      have hEntry := List.all_eq_true.mp hAll _ listed
      rw [Bool.or_eq_true, beq_iff_eq, beq_iff_eq, or_iff_right plain] at hEntry
      rw [hEntry]
      exact .word word
  | identifier named => exact .name named
  | decimal x => exact .decimal x
  | integer short => exact .integer (by rwa [Int.natAbs_natCast])
  | text literal => exact .literal literal
  | @mark spelling kind listed =>
      have hAll : Terminal.marks.all (fun entry => (GrammarSymbol.t entry.2).category == .word ||
          entry == (":", .colon) ||
          (GrammarSymbol.t entry.2).category == .operator && binaryOperators.contains entry.1) =
            true := by decide
      have hEntry := List.all_eq_true.mp hAll _ listed
      rw [Bool.or_eq_true, Bool.or_eq_true, Bool.and_eq_true, beq_iff_eq, beq_iff_eq, beq_iff_eq,
        List.contains_iff_mem] at hEntry
      obtain (hWord | hColon) | ⟨hOperator, hListed⟩ := hEntry
      · rw [hWord]
        exact .word spelling
      · cases hColon
        exact .literal isLiteral_colon
      · rw [hOperator]
        exact .operator hListed

end Lexer

/-! ### What rules build -/

namespace Build

open GrammarSymbol

/-- A type given by its name is one that a script can write: one of the five
that the language knows, or a type of its own. -/
theorem isWritten_namedType (name : String) : (namedType name).IsWritten := by
  unfold namedType
  split
  · exact .int
  · exact .float
  · exact .string
  · exact .bool
  · exact .void
  · exact .custom name

/-- A measurement that takes the name of a variable is still an expression. -/
theorem isExpression_adopt (name : String) {n : Node} (h : IsExpression n) :
    IsExpression (adopt name n) := by
  cases h with
  | number numeral => exact .number numeral
  | string literal => exact .string literal
  | bool b => exact .bool b
  | identifier named => exact .identifier named
  | assignment named assigns right => exact .assignment named assigns right
  | binary operates first second => exact .binary operates first second
  | negation inner => exact .negation inner
  | await inner => exact .await inner
  | call called given => exact .call called given
  | member inner named => exact .member inner named

theorem forall_mem_append_singleton {α : Type} {P : α → Prop} {xs : List α}
    (hs : ∀ x ∈ xs, P x) {x : α} (h : P x) : ∀ y ∈ xs ++ [x], P y :=
  List.forall_mem_append.mpr ⟨hs, List.forall_mem_singleton.mpr h⟩

theorem isWritten_of_mem_some {t : Ty} (h : t.IsWritten) : ∀ u ∈ some t, u.IsWritten := by
  rintro _ ⟨⟩
  exact h

section joining

variable {rule : Rule} {parts : List Phrase} {p : Phrase}

/-- What the rules of expressions join is an expression. Most of them hand on a
part as it is; the others make the node of their operator. -/
theorem join_expression (h : HoldAll rule.production.symbols parts)
    (hJoin : join rule parts = some p)
    (hRule : (GrammarSymbol.n rule.production.phrase).category = .expression) :
    Category.expression.Holds p := by
  cases rule with
  | expression | assignmentPlain | disjunctionPlain | conjunctionPlain | equalityPlain
  | relationPlain | sumPlain | productPlain | unaryPlain | postfixedPlain | parenthesised =>
      casesm* HoldAll _ _
      cases hJoin
      assumption
  | assign =>
      casesm* HoldAll _ _, Category.Holds _ _
      cases hJoin
      exact .expression (.assignment (by assumption) (.inl rfl) (by assumption))
  | assignSum =>
      casesm* HoldAll _ _, Category.Holds _ _
      cases hJoin
      exact .expression (.assignment (by assumption) (.inr rfl) (by assumption))
  | disjunction | conjunction =>
      casesm* HoldAll _ _, Category.Holds _ _
      cases hJoin
      exact .expression (.binary (by decide) (by assumption) (by assumption))
  | equalitySame | equalityDiffers | relationLess | relationGreater | relationLessEqual
  | relationGreaterEqual | sumPlus | sumMinus | productTimes | productDivide =>
      casesm* HoldAll _ _, Category.Holds _ _
      cases hJoin
      exact .expression (.binary (by assumption) (by assumption) (by assumption))
  | negation | awaiting | member | call | identifier | text | boolean =>
      casesm* HoldAll _ _, Category.Holds _ _
      cases hJoin
      exact .expression (by constructor <;> assumption)
  | integer | decimal =>
      casesm* HoldAll _ _, Category.Holds _ _
      cases hJoin
      exact .expression (.number (by constructor <;> assumption))
  | negativeInteger =>
      casesm* HoldAll _ _, Category.Holds _ _
      cases hJoin
      exact .expression (.number (.int (by rwa [Int.natAbs_neg])))
  | negativeDecimal =>
      casesm* HoldAll _ _, Category.Holds _ _
      cases hJoin
      exact .expression (.number (.float _))
  | _ => cases hRule

/-- What the rules of statements join is a statement, apart from the rule that
can refuse. Most of them hand on the statement that they are given. -/
theorem join_statement (h : HoldAll rule.production.symbols parts)
    (hJoin : join rule parts = some p)
    (hRule : (GrammarSymbol.n rule.production.phrase).category = .statement) :
    Category.statement.Holds p := by
  cases rule with
  | itemStatement | statementVariable | statementConst | statementShow | statementSave
  | statementDelete | statementReturn | statementThrow | statementConnect | statementQuery
  | statementCrypto | statementQuantum | statementExpression | statementFunction | statementClass
  | statementIf | statementWhile | statementFor | statementTry | statementTransaction | cryptoKey
  | cryptoPublicKey | cryptoEncryption | cryptoDecryption | cryptoHashing | cryptoSigning
  | cryptoVerification | quantumQubit | quantumGate | quantumMeasurement =>
      casesm* HoldAll _ _
      cases hJoin
      assumption
  | itemElement => casesm* HoldAll _ _, Category.Holds _ _
  | functionDeclaration => cases hJoin
  | variableTyped | constTyped =>
      casesm* HoldAll _ _, Category.Holds _ _
      cases hJoin
      exact .statement (.declaration (isWritten_of_mem_some (by assumption))
        (isExpression_adopt _ (by assumption)))
  | variableUntyped | constUntyped =>
      casesm* HoldAll _ _, Category.Holds _ _
      cases hJoin
      exact .statement (.declaration (by rintro _ ⟨⟩) (isExpression_adopt _ (by assumption)))
  | keyGeneration | publicKey | encryption | decryption | hashing | signing | verification
  | measurement =>
      casesm* HoldAll _ _, Category.Holds _ _
      cases hJoin
      exact .statement (.operation (by constructor <;> assumption))
  | returnNothing =>
      cases hJoin
      exact .statement .returnNothing
  | showStatement | save | delete | returnValue | throwStatement | expressionStatement | connect
  | query | ifElse | ifAlone | whileStatement | forStatement | tryAlone | tryCatch | tryCatchFinally
  | tryFinally | transaction | classDeclaration | qubit | gate =>
      casesm* HoldAll _ _, Category.Holds _ _
      cases hJoin
      exact .statement (by constructor <;> assumption)
  | _ => cases hRule

/-- What the rules of types, parameters and function heads join is of that
form. Lists grow at their end. -/
theorem join_typed (h : HoldAll rule.production.symbols parts) (hJoin : join rule parts = some p)
    (hRule : (GrammarSymbol.n rule.production.phrase).category ∈
      [Category.type, .types, .parameter, .parameters, .functionHead]) :
    (GrammarSymbol.n rule.production.phrase).category.Holds p := by
  cases rule with
  | parameterList | returnTyped | genericArguments =>
      casesm* HoldAll _ _
      cases hJoin
      assumption
  | typePlain =>
      casesm* HoldAll _ _, Category.Holds _ _
      cases hJoin
      exact .type (isWritten_namedType _)
  | typeGeneric =>
      casesm* HoldAll _ _, Category.Holds _ _
      cases hJoin
      exact .type (.generic (by assumption))
  | returnVoid =>
      cases hJoin
      exact .type .void
  | typesOne =>
      casesm* HoldAll _ _, Category.Holds _ _
      cases hJoin
      exact .types (List.forall_mem_singleton.mpr (by assumption))
  | typesMore =>
      casesm* HoldAll _ _, Category.Holds _ _
      cases hJoin
      exact .types (forall_mem_append_singleton (by assumption) (by assumption))
  | parameter =>
      casesm* HoldAll _ _, Category.Holds _ _
      cases hJoin
      exact .parameter (by assumption)
  | parametersGiven =>
      casesm* HoldAll _ _, Category.Holds _ _
      cases hJoin
      exact .parameters (by assumption)
  | parametersAbsent =>
      casesm* HoldAll _ _, Category.Holds _ _
      cases hJoin
      exact .parameters (List.forall_mem_nil _)
  | parametersOne =>
      casesm* HoldAll _ _, Category.Holds _ _
      cases hJoin
      exact .parameters (List.forall_mem_singleton.mpr ⟨_, rfl, by assumption⟩)
  | parametersMore =>
      casesm* HoldAll _ _, Category.Holds _ _
      cases hJoin
      exact .parameters (forall_mem_append_singleton (by assumption) ⟨_, rfl, by assumption⟩)
  | headAsync | headPlain =>
      casesm* HoldAll _ _, Category.Holds _ _
      cases hJoin
      exact .functionHead (by assumption) (by assumption)
  | _ => exact absurd hRule (by decide)

/-- What the rules of programs, blocks, arguments and names join is a list of
such parts. A list grows at its end, and an empty one is built of nothing. -/
theorem join_listed (h : HoldAll rule.production.symbols parts) (hJoin : join rule parts = some p)
    (hRule : (GrammarSymbol.n rule.production.phrase).category ∈
      [Category.program, .statements, .block, .arguments, .identifiers]) :
    (GrammarSymbol.n rule.production.phrase).category.Holds p := by
  cases rule with
  | blockElement => casesm* HoldAll _ _, Category.Holds _ _
  | programItems | programTerminated =>
      casesm* HoldAll _ _, Category.Holds _ _
      cases hJoin
      exact .program (by assumption)
  | programEmpty =>
      casesm* HoldAll _ _, Category.Holds _ _
      cases hJoin
      exact .program (List.forall_mem_nil _)
  | itemsMore =>
      casesm* HoldAll _ _, Category.Holds _ _
      cases hJoin
      exact .statements (forall_mem_append_singleton (by assumption) (by assumption))
  | itemsOne | statementsLast =>
      casesm* HoldAll _ _, Category.Holds _ _
      cases hJoin
      exact .statements (List.forall_mem_singleton.mpr (by assumption))
  | statementsMore =>
      casesm* HoldAll _ _, Category.Holds _ _
      cases hJoin
      exact .statements (List.forall_mem_cons.mpr ⟨by assumption, by assumption⟩)
  | blockStatements =>
      casesm* HoldAll _ _, Category.Holds _ _
      cases hJoin
      exact .statements (by assumption)
  | blockEmpty =>
      casesm* HoldAll _ _, Category.Holds _ _
      cases hJoin
      exact .statements (List.forall_mem_nil _)
  | functionBody =>
      casesm* HoldAll _ _, Category.Holds _ _
      cases hJoin
      exact .block (by assumption)
  | argumentsOne =>
      casesm* HoldAll _ _, Category.Holds _ _
      cases hJoin
      exact .arguments (List.forall_mem_singleton.mpr (by assumption))
  | argumentsMore =>
      casesm* HoldAll _ _, Category.Holds _ _
      cases hJoin
      exact .arguments (forall_mem_append_singleton (by assumption) (by assumption))
  | argumentsAbsent =>
      casesm* HoldAll _ _, Category.Holds _ _
      cases hJoin
      exact .arguments (List.forall_mem_nil _)
  | identifiersOne =>
      casesm* HoldAll _ _, Category.Holds _ _
      cases hJoin
      exact .identifiers (List.forall_mem_singleton.mpr ⟨_, by assumption, rfl⟩)
  | identifiersMore =>
      casesm* HoldAll _ _, Category.Holds _ _
      cases hJoin
      exact .identifiers (forall_mem_append_singleton (by assumption) ⟨_, by assumption, rfl⟩)
  | _ => exact absurd hRule (by decide)

/-- What the rules of words, settings and the parts of elements join is of the
kind that their symbol stands for. -/
theorem join_plain (h : HoldAll rule.production.symbols parts) (hJoin : join rule parts = some p)
    (hRule : (GrammarSymbol.n rule.production.phrase).category ∈
      [Category.absent, .word, .leaf, .settings, .any]) :
    (GrammarSymbol.n rule.production.phrase).category.Holds p := by
  cases rule with
  | nothing =>
      cases hJoin
      exact .absent
  | commit | rollback | typeNameWord | settingsOne | settingsGiven =>
      casesm* HoldAll _ _
      cases hJoin
      assumption
  | typeNameIdentifier =>
      casesm* HoldAll _ _, Category.Holds _ _
      cases hJoin
      exact .word _
  | settingText | settingInteger =>
      casesm* HoldAll _ _, Category.Holds _ _
      cases hJoin
      exact .leaf _
  | keyKind | settingsAbsent | settingsMore | settingIdentifier | settingDb | settingSize
  | settingAlgorithm | settingKey | settingData | settingSignature =>
      casesm* HoldAll _ _, Category.Holds _ _
      cases hJoin
      exact .settings _
  | bodyBoth | bodyAttributes | bodyContent | bodyEmpty | emptyBody | attributesMore | attributesOne
  | attributePair | contentMore | contentOne | contentStatement | contentExpression | contentDynamic
  | closingUnnamed | closingNamed => exact .any p
  | _ => exact absurd hRule (by decide)

/-- A rule that cannot refuse makes what its symbol stands for. -/
theorem join_holds (h : HoldAll rule.production.symbols parts) (hJoin : join rule parts = some p)
    (hRule : rule.canRefuse = false) :
    (GrammarSymbol.n rule.production.phrase).category.Holds p := by
  cases hCategory : (GrammarSymbol.n rule.production.phrase).category with
  | expression => exact join_expression h hJoin hCategory
  | statement => exact join_statement h hJoin hCategory
  | type | types | parameter | parameters | functionHead =>
      rw [← hCategory]
      exact join_typed h hJoin (by rw [hCategory]; decide)
  | program | statements | block | arguments | identifiers =>
      rw [← hCategory]
      exact join_listed h hJoin (by rw [hCategory]; decide)
  | absent | word | leaf | settings | any =>
      rw [← hCategory]
      exact join_plain h hJoin (by rw [hCategory]; decide)
  | name | literal | operator | integer | decimal | truth | never =>
      cases rule with
      | element | dynamicContent => cases hRule
      | _ => cases hCategory

end joining

/-- A rule that cannot refuse builds what it joins its parts to. -/
theorem join_of_build {policy : ElementPolicy} {rule : Rule} {parts : List Phrase} {p : Phrase}
    (hRule : rule.canRefuse = false) (h : (build policy rule parts).result = .ok p) :
    join rule parts = some p := by
  cases hJoin : join rule parts with
  | some q =>
      rw [build_of_join policy hRule hJoin] at h
      cases h
      rfl
  | none =>
      unfold build at h
      split at h
      · cases hRule
      · cases hRule
      · cases hRule
      · rw [hJoin] at h
        cases h

/-- A function is built from its head and its statements, one of which
returns. -/
theorem buildFunction_block {name : String} {parameters : List Parameter} {result : Option Ty}
    {async : Bool} {q p : Phrase} {inside : List Node}
    (h : (buildFunction [.functionHead name parameters result async, q,
      .node (.block inside)]).result = .ok p) :
    (Node.searchReturns inside).found = .ok true ∧
      p = .node (.functionDeclaration name parameters result (.block inside) async) := by
  rw [buildFunction.eq_def] at h
  dsimp only at h
  rw [functionOf] at h
  split at h
  · cases h
  · dsimp only at h
    split at h
    · rename_i hFound
      cases h
      exact ⟨hFound, rfl⟩
    · cases h
    · cases h

/-- Where elements are refused, every rule makes what its symbol stands for. -/
theorem build_holds {rule : Rule} {parts : List Phrase} {p : Phrase}
    (h : HoldAll rule.production.symbols parts)
    (hBuild : (build .refuse rule parts).result = .ok p) :
    (GrammarSymbol.n rule.production.phrase).category.Holds p := by
  cases hRule : rule.canRefuse with
  | false => exact join_holds h (join_of_build hRule hBuild) hRule
  | true =>
      cases rule with
      | functionDeclaration =>
          casesm* HoldAll _ _, Category.Holds _ _
          rw [build] at hBuild
          obtain ⟨hReturns, rfl⟩ := buildFunction_block hBuild
          exact .statement (.function (by assumption) (by assumption) (by assumption) hReturns)
      | element => cases (build_element_ok hBuild).1
      | dynamicContent => exact absurd hBuild build_dynamicContent_ne_ok
      | _ => cases hRule

end Build

namespace Derivation

open GrammarSymbol

/-- If the value of each derivation is what its symbol stands for, the values
of derivations in a row are what their symbols stand for. -/
theorem holdAll_of_values {ds : List Derivation} {phrases : List Phrase}
    (hHolds : ∀ d ∈ ds, ∀ p, d.value .refuse = .ok p → d.symbol.category.Holds p)
    (h : values .refuse ds = .ok phrases) : HoldAll (ds.map symbol) phrases := by
  induction ds generalizing phrases with
  | nil =>
      cases h
      exact .nil
  | cons d rest ih =>
      obtain ⟨p, ps, rfl, hp, hps⟩ := values_cons_inv h
      exact .cons (hHolds d (.head _) p hp) (ih (fun e he => hHolds e (.tail _ he)) hps)

/-- Where elements are refused, the value of a derivation is what its symbol
stands for. -/
theorem Valid.value_holds {d : Derivation} (hd : d.Valid)
    (hTokens : ∀ t ∈ d.tokens, Lexer.Reads t.kind t.value) {p : Phrase}
    (h : d.value .refuse = .ok p) :
    d.symbol.category.Holds p := by
  induction hd generalizing p with
  | leaf t =>
      cases h
      exact (hTokens t (.head _)).holds
  | @node rule parts joins valid ih =>
      obtain ⟨phrases, hParts, hBuild⟩ := value_node_inv h
      have hHold : HoldAll (parts.map symbol) phrases :=
        holdAll_of_values (fun d hd p hp =>
          ih d hd (fun t ht => hTokens t (mem_tokensAll hd ht)) hp) hParts
      rw [joins] at hHold
      exact Build.build_holds hHold hBuild

end Derivation

end PageScript
