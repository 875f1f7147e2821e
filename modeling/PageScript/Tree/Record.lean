import PageScript.Fault
import PageScript.Tree.Node

/-! Trees as nested records of plain data. Types have no record, so a tree that
carries one cannot be recorded as a whole. -/
namespace PageScript

/-- Plain data: values, types left as they are, lists and records with named
fields in order. -/
inductive Record where
  | value (v : Value)
  | type (t : Ty)
  | list (items : List Record)
  | fields (entries : List (String × Record))
  deriving Repr, Inhabited

namespace Record

def null : Record := .value .none

def text (s : String) : Record := .value (.text s)

def ofKeyType : KeyType → Record
  | .unknown => null
  | .type t => .type t
  | .word name => text name

def ofText : Option String → Record
  | some s => text s
  | none => null

/-- A record of a node: its type first, then its fields. -/
def ofNode (type : String) (entries : List (String × Record)) : Record :=
  .fields (("type", text type) :: entries)

/-- The record of an identifier. -/
def identifier (name : String) : Record :=
  ofNode "Identifier" [("name", text name)]

/-- The record of a type that may be absent. Types have none. -/
def typeField : Option Ty → Except Fault Record
  | some t => .error (.shape (.noField t.kindName "to_dict"))
  | none => .ok null

def parameter (p : Parameter) : Except Fault Record := do
  let type ← typeField p.type
  return ofNode "Parameter" [("name", text p.name), ("param_type", type)]

def attributes (table : Table String) : Record :=
  .fields (table.entries.map fun entry => (entry.1, text entry.2))

end Record

namespace Node

mutual

/-- The record of a node; a missing node is recorded as nothing. The fields are
recorded in order, so the first that has no record decides the fault. -/
def recordField : Node → Except Fault Record
  | missing => .ok .null
  | blank => .error (.unsupported .record "base ASTNode")
  | emptyStatement => .error (.unsupported .record "base ASTNode")
  | blankExpression => .error (.unsupported .record "ExpressionNode")
  | program statements => do
    return Record.ofNode "Program" [("statements", .list (← recordAll statements))]
  | block statements => do
    return Record.ofNode "Block" [("statements", .list (← recordAll statements))]
  | bareBlock item => .error (.shape (.notIterable item.kindName))
  | declaration name type value constant => do
    let type ← Record.typeField type
    let value ← recordField value
    return Record.ofNode "VariableDeclaration"
      [("name", .text name), ("var_type", type), ("value", value),
        ("const", .value (.bool constant))]
  | showStatement value => do
    return Record.ofNode "ShowStatement" [("value", ← recordField value)]
  | saveStatement name value => do
    return Record.ofNode "SaveStatement"
      [("identifier", .text name), ("value", ← recordField value)]
  | deleteStatement name => .ok (Record.ofNode "DeleteStatement" [("identifier", .text name)])
  | returnStatement value => do
    return Record.ofNode "ReturnStatement" [("expression", ← recordField value)]
  | throwStatement value => do
    return Record.ofNode "ThrowStatement" [("expression", ← recordField value)]
  | expressionStatement expression => do
    return Record.ofNode "ExpressionStatement" [("expression", ← recordField expression)]
  | ifStatement condition thenBlock elseBlock => do
    let condition ← recordField condition
    let thenBlock ← recordField thenBlock
    let elseBlock ← recordField elseBlock
    return Record.ofNode "IfStatement"
      [("condition", condition), ("then_block", thenBlock), ("else_block", elseBlock)]
  | whileStatement condition body => do
    let condition ← recordField condition
    let body ← recordField body
    return Record.ofNode "WhileStatement" [("condition", condition), ("body", body)]
  | forStatement iterator iterable body => do
    let iterable ← recordField iterable
    let body ← recordField body
    return Record.ofNode "ForStatement"
      [("iterator", Record.identifier iterator), ("iterable", iterable), ("body", body)]
  | tryStatement tryBlock catchName catchBlock finallyBlock => do
    let tryBlock ← recordField tryBlock
    let catchName ← recordField catchName
    let catchBlock ← recordField catchBlock
    let finallyBlock ← recordField finallyBlock
    return Record.ofNode "TryCatchFinally"
      [("try_block", tryBlock), ("exception_var", catchName), ("catch_block", catchBlock),
        ("finally_block", finallyBlock)]
  | functionDeclaration name parameters result body async => do
    let parameters ← parameters.mapM Record.parameter
    let result ← Record.typeField result
    let body ← recordField body
    return Record.ofNode "FunctionDeclaration"
      [("name", .text name), ("parameters", .list parameters), ("return_type", result),
        ("body", body), ("async_function", .value (.bool async))]
  | parameter p => Record.parameter p
  | classDeclaration name members => do
    return Record.ofNode "ClassDeclaration"
      [("name", .text name), ("members", .list (← recordAll members))]
  | bareClass _ item => .error (.shape (.notIterable item.kindName))
  | connectStatement url database =>
    .ok (Record.ofNode "ConnectStatement" [("db_url", .text url), ("db_var", .text database)])
  | queryStatement database query =>
    .ok (Record.ofNode "QueryStatement" [("db_var", .text database), ("query_str", .text query)])
  | transaction database body mode => do
    return Record.ofNode "Transaction"
      [("db_var", .text database), ("block", ← recordField body), ("mode", .text mode)]
  | qubit name => .ok (Record.ofNode "QuantumDefineQubit" [("qubit_name", .text name)])
  | gate name qubits => do
    return Record.ofNode "QuantumApply"
      [("gate", .text name), ("qubits", .list (← recordAll qubits))]
  | measurement name target =>
    .ok (Record.ofNode "QuantumMeasure" [("var_name", .text name), ("qubit_name", .text target)])
  | keyGeneration name keyType algorithm size database =>
    .ok (Record.ofNode "CryptoGenerateKey"
      [("var_name", .text name), ("key_type", .ofKeyType keyType), ("algorithm", .value algorithm),
        ("size", .value size), ("db", .value database)])
  | publicKey name privateKey =>
    .ok (Record.ofNode "CryptoDerivePublicKey"
      [("var_name", .text name), ("private_key_name", .text privateKey),
        ("operation", .text "derive_public_key"), ("identifier", Record.identifier privateKey)])
  | encryption name data key algorithm => do
    let data ← recordField data
    let key ← recordField key
    return Record.ofNode "CryptoEncrypt"
      [("var_name", .text name), ("data_expr", data), ("key_expr", key),
        ("algorithm", .ofText algorithm)]
  | decryption name data key algorithm => do
    let data ← recordField data
    let key ← recordField key
    return Record.ofNode "CryptoDecrypt"
      [("var_name", .text name), ("data_expr", data), ("key_expr", key),
        ("algorithm", .ofText algorithm)]
  | hashing name data algorithm => do
    return Record.ofNode "CryptoHash"
      [("var_name", .text name), ("data_expr", ← recordField data),
        ("algorithm", .ofText algorithm)]
  | signing name data key algorithm => do
    let data ← recordField data
    let key ← recordField key
    return Record.ofNode "CryptoSign"
      [("var_name", .text name), ("data_expr", data), ("key_expr", key),
        ("algorithm", .ofText algorithm)]
  | verification name signature data key algorithm => do
    let signature ← recordField signature
    let data ← recordField data
    let key ← recordField key
    return Record.ofNode "CryptoVerify"
      [("var_name", .text name), ("signature_expr", signature), ("data_expr", data),
        ("key_expr", key), ("algorithm", .ofText algorithm)]
  | element tag attributes content => do
    return Record.ofNode "JTMLElement"
      [("tag_name", .text tag), ("attributes", Record.attributes attributes),
        ("content", .list (← recordAll content))]
  | text value => .ok (Record.ofNode "TextNode" [("value", .text value)])
  | dynamic expression => do
    return Record.ofNode "DynamicExpression" [("expression", ← recordField expression)]
  | await expression => do
    return Record.ofNode "AwaitExpression" [("expression", ← recordField expression)]
  | binary left operator right => do
    let left ← recordField left
    let right ← recordField right
    return Record.ofNode "BinaryOperation"
      [("left", left), ("op", .text operator), ("right", right)]
  | unary operator operand => do
    return Record.ofNode "UnaryOperation"
      [("op", .text operator), ("operand", ← recordField operand)]
  | number value => .ok (Record.ofNode "NumberLiteral" [("value", .value value)])
  | string value => .ok (Record.ofNode "StringLiteral" [("value", .text value)])
  | bool value => .ok (Record.ofNode "BoolLiteral" [("value", .value (.bool value))])
  | identifier name => .ok (Record.identifier name)
  | call function arguments => do
    let function ← recordField function
    return Record.ofNode "FunctionCall"
      [("function", function), ("arguments", .list (← recordAll arguments))]
  | member object name => do
    let object ← recordField object
    if name = "" then return Record.ofNode "MemberAccess" [("object", object), ("member", .null)]
    else throw (.shape (.noField "str" "to_dict"))
  | memberNode object part => do
    let object ← recordField object
    let part ← recordField part
    return Record.ofNode "MemberAccess" [("object", object), ("member", part)]

/-- The records of several nodes, none of which may be missing. -/
def recordAll : List Node → Except Fault (List Record)
  | [] => .ok []
  | missing :: _ => .error (.shape (.noField "NoneType" "to_dict"))
  | n :: rest => do
    let first ← recordField n
    let others ← recordAll rest
    return first :: others

end

/-- The record of a whole tree. -/
def record : Node → Except Fault Record
  | missing => .error (.shape (.noField "NoneType" "to_dict"))
  | n => recordField n

end Node

end PageScript
