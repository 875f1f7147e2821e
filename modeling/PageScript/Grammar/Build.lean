import PageScript.Grammar.Phrase
import PageScript.Grammar.Rule
import PageScript.Tree.Return
import PageScript.Tree.Serialise

/-! What each rule of the grammar builds from the phrases it joins. Three rules
can refuse: a function must contain a return statement, an element must be
closed by its own tag, and dynamic content is not available. -/
namespace PageScript

/-- What becomes of page elements in a script. -/
inductive ElementPolicy where
  /-- Elements need a reader that is not available, so none is accepted. -/
  | refuse
  /-- Elements become nodes of the tree. -/
  | keep
  deriving Repr, DecidableEq

/-- What a rule has printed, and what it has built. -/
structure Built where
  output : String
  result : Except Fault Phrase

namespace Build

def leafAt (parts : List Phrase) (i : Nat) : Option Value := parts[i]?.bind Phrase.leaf?

def wordAt (parts : List Phrase) (i : Nat) : Option String := parts[i]?.bind Phrase.word?

def nodeAt (parts : List Phrase) (i : Nat) : Option Node := parts[i]?.bind Phrase.node?

def nodesAt (parts : List Phrase) (i : Nat) : Option (List Node) := parts[i]?.bind Phrase.nodes?

def blockAt (parts : List Phrase) (i : Nat) : Option Node := parts[i]?.bind Phrase.block?

def typeAt (parts : List Phrase) (i : Nat) : Option (Option Ty) := parts[i]?.bind Phrase.type?

/-- The type that a single name means. -/
def namedType (name : String) : Ty :=
  match name with
  | "int" => .int
  | "float" => .float
  | "string" => .string
  | "bool" => .bool
  | "void" => .void
  | _ => .custom name

/-- A measurement takes the name of the variable it is assigned to. -/
def adopt (name : String) : Node → Node
  | .measurement _ qubit => .measurement name qubit
  | n => n

/-- The literal of a token's value. -/
def literal : Value → Node
  | .bool b => .bool b
  | .text s => .string s
  | v => .number v

/-- The negation of a number, truth values counting as numbers. Other values
have none. -/
def negated : Value → Option Node
  | .bool b => some (.number (.int (if b then -1 else 0)))
  | .int n => some (.number (.int (-n)))
  | .float x => some (.number (.float (-x)))
  | _ => none

/-- An operation whose operator is the middle token. -/
def operation (parts : List Phrase) : Option Phrase := do
  let left ← nodeAt parts 0
  let operator ← wordAt parts 1
  let right ← nodeAt parts 2
  return .node (.binary left operator right)

/-- An operation with a fixed operator. -/
def fixedOperation (operator : String) (parts : List Phrase) : Option Phrase := do
  let left ← nodeAt parts 0
  let right ← nodeAt parts 2
  return .node (.binary left operator right)

/-- An assignment to the identifier that comes first. -/
def assignment (operator : String) (parts : List Phrase) : Option Phrase := do
  let name ← wordAt parts 0
  let value ← nodeAt parts 2
  return .node (.binary (.identifier name) operator value)

/-- A declaration whose type, if any, and whose value stand at these places. -/
def declaration (parts : List Phrase) (type : Option Nat) (value : Nat) (constant : Bool) :
    Option Phrase := do
  let name ← wordAt parts 1
  let t ← match type with
    | some i => typeAt parts i
    | none => some none
  let v ← nodeAt parts value
  return .node (.declaration name t (adopt name v) constant)

/-- The declaration of the variable that a statement assigns its result to. -/
def assigned (parts : List Phrase) (make : String → Option Node) : Option Phrase := do
  let name ← wordAt parts 1
  let value ← make name
  return .node (.declaration name none value false)

/-- A text literal made of the token at this place. -/
def textAt (parts : List Phrase) (i : Nat) : Option Node :=
  (wordAt parts i).map .string

/-- One more node at the end of a list. -/
def appendNode (parts : List Phrase) (list item : Nat) : Option Phrase := do
  let ns ← nodesAt parts list
  let n ← nodeAt parts item
  return .nodes (ns ++ [n])

/-- A single setting of a generated key. -/
def setting (key : String) (parts : List Phrase) : Option Phrase :=
  (leafAt parts 2).map fun value => .settings (.ofEntries [(key, value)])

/-- The generated key that some settings describe. The key type and then each
parameter overrides earlier settings of the same name. -/
def generatedKey (name : String) (settings : Table Value) : Node :=
  let keyType : KeyType := match settings.get? "type" with
    | some (.text s) => if s = "" then .unknown else .type (.named s)
    | _ => .unknown
  .keyGeneration name keyType ((settings.get? "algorithm").getD .none)
    ((settings.get? "size").getD .none)
    ((settings.get? "db").getD .none)

/-- The body of a block: nothing at all is no statements. -/
def blockBody : Phrase → Phrase
  | .nothing => .nodes []
  | p => p

/-- A class with a list of members, or with one bare node. -/
def classOf (name : String) : Phrase → Option Node
  | .nodes ns => some (.classDeclaration name ns)
  | .node n => some (.bareClass name n)
  | .nothing => some (.bareClass name .missing)
  | _ => none

/-- The body of an element that has attributes only, content only, or
neither. -/
def simpleBody : Phrase → Option Phrase
  | .attributes table => some (.elementBody table [])
  | .nodes ns => some (.elementBody .empty ns)
  | .nothing => some (.elementBody .empty [])
  | _ => none

/-- The first argument of a call, if there is one. -/
def firstArgument : Phrase → Option Phrase
  | .nothing => some (.nodes [])
  | .node n => some (.nodes [n])
  | _ => none

/-- One more argument of a call. A list of arguments that is nothing at all
stays empty. -/
def moreArguments (parts : List Phrase) : Option Phrase :=
  match parts with
  | .nothing :: _ => some (.nodes [])
  | _ => appendNode parts 0 2

/-- What a rule builds when it cannot refuse. -/
def join (r : Rule) (parts : List Phrase) : Option Phrase :=
  match r with
  | .programItems | .programTerminated | .programEmpty =>
    (nodesAt parts 0).map fun ns => .node (.program ns)
  | .itemsMore => appendNode parts 0 1
  | .itemsOne | .statementsLast | .contentOne => (nodeAt parts 0).map fun n => .nodes [n]
  | .nothing | .emptyBody => some .nothing
  | .statementsMore => do
    let n ← nodeAt parts 0
    let ns ← nodesAt parts 2
    return .nodes (n :: ns)
  | .blockStatements | .blockElement | .blockEmpty =>
    parts[0]?.map blockBody
  | .itemStatement | .itemElement | .statementVariable | .statementConst | .statementShow
  | .statementSave | .statementDelete | .statementReturn | .statementThrow | .statementConnect
  | .statementQuery | .statementCrypto | .statementQuantum | .statementExpression
  | .statementFunction | .statementClass | .statementIf | .statementWhile | .statementFor
  | .statementTry | .statementTransaction | .commit | .rollback | .typeNameIdentifier
  | .typeNameWord | .cryptoKey | .cryptoPublicKey | .cryptoEncryption | .cryptoDecryption
  | .cryptoHashing | .cryptoSigning | .cryptoVerification | .settingsOne | .settingText
  | .settingInteger | .quantumQubit | .quantumGate | .quantumMeasurement | .attributesOne
  | .contentStatement | .contentExpression | .contentDynamic | .expression | .assignmentPlain
  | .disjunctionPlain | .conjunctionPlain | .equalityPlain | .relationPlain | .sumPlain
  | .productPlain | .unaryPlain
  | .postfixedPlain => parts[0]?
  | .parameterList | .returnTyped | .genericArguments | .settingsGiven | .parenthesised => parts[1]?
  | .variableTyped => declaration parts (some 3) 5 false
  | .variableUntyped => declaration parts none 3 false
  | .constTyped => declaration parts (some 3) 5 true
  | .constUntyped => declaration parts none 3 true
  | .showStatement => (nodeAt parts 1).map fun n => .node (.showStatement n)
  | .save => do
    let name ← wordAt parts 1
    let value ← nodeAt parts 3
    return .node (.saveStatement name value)
  | .delete => (wordAt parts 1).map fun name => .node (.deleteStatement name)
  | .returnValue => (nodeAt parts 1).map fun n => .node (.returnStatement n)
  | .returnNothing => some (.node (.returnStatement .missing))
  | .throwStatement => (nodeAt parts 1).map fun n => .node (.throwStatement n)
  | .expressionStatement => (nodeAt parts 0).map fun n => .node (.expressionStatement n)
  | .connect => do
    let url ← wordAt parts 2
    let database ← wordAt parts 4
    return .node (.connectStatement url database)
  | .query => do
    let database ← wordAt parts 2
    let text ← wordAt parts 4
    return .node (.queryStatement database text)
  | .ifElse => do
    let condition ← nodeAt parts 2
    let thenBlock ← blockAt parts 5
    let elseBlock ← blockAt parts 8
    return .node (.ifStatement condition thenBlock elseBlock)
  | .ifAlone => do
    let condition ← nodeAt parts 2
    let thenBlock ← blockAt parts 5
    return .node (.ifStatement condition thenBlock .missing)
  | .whileStatement => do
    let condition ← nodeAt parts 2
    let body ← blockAt parts 5
    return .node (.whileStatement condition body)
  | .forStatement => do
    let iterator ← wordAt parts 2
    let iterable ← nodeAt parts 4
    let body ← blockAt parts 7
    return .node (.forStatement iterator iterable body)
  | .tryAlone => (blockAt parts 2).map fun b => .node (.tryStatement b .missing .missing .missing)
  | .tryCatch => do
    let body ← blockAt parts 2
    let name ← wordAt parts 5
    let handler ← blockAt parts 8
    return .node (.tryStatement body (.identifier name) handler .missing)
  | .tryCatchFinally => do
    let body ← blockAt parts 2
    let name ← wordAt parts 5
    let handler ← blockAt parts 8
    let last ← blockAt parts 11
    return .node (.tryStatement body (.identifier name) handler last)
  | .tryFinally => do
    let body ← blockAt parts 2
    let last ← blockAt parts 5
    return .node (.tryStatement body .missing .missing last)
  | .transaction => do
    let database ← wordAt parts 2
    let body ← blockAt parts 4
    let mode ← wordAt parts 6
    return .node (.transaction database body mode)
  | .headAsync => do
    let name ← wordAt parts 2
    let parameters ← parts[3]?.bind Phrase.parameters?
    let result ← typeAt parts 4
    return .functionHead name parameters result true
  | .headPlain => do
    let name ← wordAt parts 1
    let parameters ← parts[2]?.bind Phrase.parameters?
    let result ← typeAt parts 3
    return .functionHead name parameters result false
  | .functionBody => (blockAt parts 0).map .node
  | .parametersGiven | .parametersAbsent => (parts[0]?.bind Phrase.parameters?).map .parameters
  | .parametersMore => do
    let ps ← parts[0]?.bind Phrase.parameters?
    let p ← parts[2]?.bind Phrase.parameter?
    return .parameters (ps ++ [p])
  | .parametersOne => (parts[0]?.bind Phrase.parameter?).map fun p => .parameters [p]
  | .parameter => do
    let name ← wordAt parts 0
    let type ← typeAt parts 2
    return .node (.parameter ⟨name, type⟩)
  | .returnVoid => some (.type .void)
  | .classDeclaration => do
    let name ← wordAt parts 1
    let body ← parts[3]?
    (classOf name body).map .node
  | .typePlain => (wordAt parts 0).map fun name => .type (namedType name)
  | .typeGeneric => do
    let name ← wordAt parts 0
    let arguments ← parts[1]?.bind Phrase.types?
    return .type (.generic name arguments)
  | .typesOne => do
    let t ← typeAt parts 0
    return .types (← t.map fun t => [t])
  | .typesMore => do
    let ts ← parts[0]?.bind Phrase.types?
    let t ← typeAt parts 2
    return .types (ts ++ [← t])
  | .keyGeneration => do
    let keyKind ← parts[4]?.bind Phrase.settings?
    let settings ← parts[5]?.bind Phrase.settings?
    assigned parts fun name => some (generatedKey name (keyKind.update settings))
  | .publicKey => do
    let privateKey ← wordAt parts 5
    assigned parts fun name => some (.publicKey name privateKey)
  | .encryption => assigned parts fun name => do
    return .encryption name (← textAt parts 6) (← textAt parts 10)
      (← (wordAt parts 13).map some)
  | .decryption => assigned parts fun name => do
    return .decryption name (← textAt parts 6) (← textAt parts 10)
      (← (wordAt parts 13).map some)
  | .hashing => assigned parts fun name => do
    return .hashing name (← textAt parts 5) (← (wordAt parts 9).map some)
  | .signing => assigned parts fun name => do
    return .signing name (← textAt parts 5) (← textAt parts 9) (← (wordAt parts 13).map some)
  | .verification => assigned parts fun name => do
    return .verification name (← textAt parts 6) (← textAt parts 9) (← textAt parts 13)
      (← (wordAt parts 16).map some)
  | .keyKind => setting "type" parts
  | .settingsAbsent => some (.settings .empty)
  | .settingsMore => do
    let earlier ← parts[0]?.bind Phrase.settings?
    let later ← parts[2]?.bind Phrase.settings?
    return .settings (earlier.update later)
  | .settingIdentifier => do
    let key ← wordAt parts 0
    setting key parts
  | .settingDb => setting "db" parts
  | .settingSize => setting "size" parts
  | .settingAlgorithm => setting "algorithm" parts
  | .settingKey => setting "key" parts
  | .settingData => setting "data" parts
  | .settingSignature => setting "signature" parts
  | .qubit => (wordAt parts 1).map fun name => .node (.qubit name)
  | .gate => do
    let name ← wordAt parts 1
    let qubits ← nodesAt parts 3
    return .node (.gate name qubits)
  | .measurement => do
    let qubit ← wordAt parts 4
    assigned parts fun name => some (.measurement name qubit)
  | .identifiersOne => (wordAt parts 0).map fun name => .nodes [.identifier name]
  | .identifiersMore => do
    let ns ← nodesAt parts 0
    let name ← wordAt parts 2
    return .nodes (ns ++ [.identifier name])
  | .bodyBoth => do
    let attributes ← parts[0]?.bind Phrase.attributes?
    let content ← nodesAt parts 2
    return .elementBody attributes content
  | .bodyAttributes | .bodyContent | .bodyEmpty =>
    parts[0]?.bind simpleBody
  | .attributesMore => do
    let earlier ← parts[0]?.bind Phrase.attributes?
    let later ← parts[1]?.bind Phrase.attributes?
    return .attributes (earlier.update later)
  | .attributePair => do
    let key ← wordAt parts 0
    let value ← wordAt parts 2
    return .attributes (.ofEntries [(key, value)])
  | .contentMore => appendNode parts 0 1
  | .closingUnnamed => some .nothing
  | .closingNamed => parts[1]?
  | .assignSum => assignment "+=" parts
  | .assign => assignment "=" parts
  | .disjunction => fixedOperation "||" parts
  | .conjunction => fixedOperation "&&" parts
  | .equalitySame | .equalityDiffers | .relationLess | .relationGreater | .relationLessEqual
  | .relationGreaterEqual | .sumPlus | .sumMinus | .productTimes | .productDivide => operation parts
  | .negation => (nodeAt parts 1).map fun n => .node (.unary "!" n)
  | .awaiting => (nodeAt parts 1).map fun n => .node (.await n)
  | .member => do
    let object ← nodeAt parts 0
    let name ← wordAt parts 2
    return .node (.member object name)
  | .call => do
    let function ← nodeAt parts 0
    let arguments ← nodesAt parts 2
    return .node (.call function arguments)
  | .integer | .decimal | .text | .boolean => (leafAt parts 0).map fun v => .node (literal v)
  | .identifier => (wordAt parts 0).map fun name => .node (.identifier name)
  | .negativeInteger | .negativeDecimal => ((leafAt parts 1).bind negated).map .node
  | .argumentsOne | .argumentsAbsent =>
    parts[0]?.bind firstArgument
  | .argumentsMore => moreArguments parts
  | .functionDeclaration | .element | .dynamicContent => none

/-- Announce a function on the console. -/
def announcement (name body : String) : String :=
  s!"Parsed function '{name}' with body: " ++ body ++ "\n"

/-- Build a function, provided its statements hold a return statement. -/
def functionOf (name : String) (parameters : List Parameter) (result : Option Ty) (async : Bool)
    (body : Node) (statements : List Node) : Built :=
  let heading := announcement name (Node.displayAll statements)
  let refusal : Except Fault Phrase := .error (.syntactic (.lacksReturn name))
  if statements.isEmpty then ⟨heading, refusal⟩
  else
    let search := Node.searchReturns statements
    ⟨heading ++ search.output, match search.found with
      | .ok true => .ok (.node (.functionDeclaration name parameters result body async))
      | .ok false => refusal
      | .error fault => .error fault⟩

/-- Build a function from its head and its body. -/
def buildFunction (parts : List Phrase) : Built :=
  match parts with
  | [.functionHead name parameters result async, _, .node body] =>
    match body with
    | .block statements | .program statements =>
      functionOf name parameters result async body statements
    | .bareBlock .missing =>
      ⟨announcement name (Node.display .missing), .error (.syntactic (.lacksReturn name))⟩
    | .bareBlock item =>
      ⟨announcement name item.display, .error (.shape (.notIterable item.kindName))⟩
    | _ => ⟨"", .error (.shape (.noField body.kindName "statements"))⟩
  | _ => ⟨"", .error .misplacedPhrase⟩

/-- The content of an element that would have to be handed to the reader. Shown
values and declarations of simple expressions could be. -/
def checkContent : List Node → Except Fault Unit
  | [] => .ok ()
  | .showStatement _ :: rest => checkContent rest
  | .declaration _ _ value _ :: rest => do
    let _ ← value.serialise
    checkContent rest
  | n :: _ => .error (.unsupported .serialise n.qualifiedKind)

/-- Build an element, provided its closing tag fits. -/
def buildElement (policy : ElementPolicy) (tag : String) (attributes : Table String)
    (content : List Node) (closing : Option String) : Except Fault Phrase :=
  match closing with
  | some name =>
    if name = tag then finish else .error (.syntactic (.closingTag name tag))
  | none => finish
where
  finish : Except Fault Phrase :=
    match policy with
    | .keep => .ok (.node (.element tag attributes content))
    | .refuse => do
      checkContent content
      throw (.unavailable .elementReader)

/-- Apply a rule to the phrases it joins. -/
def build (policy : ElementPolicy) (r : Rule) (parts : List Phrase) : Built :=
  match r with
  | .functionDeclaration => buildFunction parts
  | .element =>
    ⟨"", match parts with
      | [_, .leaf (.text tag), .elementBody attributes content, closing] =>
        buildElement policy tag attributes content closing.closingName
      | [_, .leaf (.text tag), .nothing, closing] =>
        buildElement policy tag .empty [] closing.closingName
      | _ => .error .misplacedPhrase⟩
  | .dynamicContent => ⟨"", .error (.unavailable .dynamicContent)⟩
  | _ => ⟨"", match join r parts with
      | some p => .ok p
      | none => .error .misplacedPhrase⟩

end Build

end PageScript
