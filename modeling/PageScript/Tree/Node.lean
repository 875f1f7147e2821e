import PageScript.Table
import PageScript.Ty.Basic
import PageScript.Value.Basic

/-! Script trees. One type holds every phrase of a script, because a tree may
be put together by hand: any node can stand where any other can, or be
missing. -/
namespace PageScript

/-- A parameter of a function. -/
structure Parameter where
  name : String
  type : Option Ty
  deriving Repr

/-- The type of a generated key, which a tree can also give as a bare word. -/
inductive KeyType where
  | unknown
  | type (t : Ty)
  | word (name : String)
  deriving Repr, Inhabited

/-- A node of a script tree. -/
inductive Node where
  /-- Nothing stands here. -/
  | missing
  /-- A node without any content. -/
  | blank
  /-- An expression without any content. -/
  | blankExpression
  | emptyStatement
  | program (statements : List Node)
  | block (statements : List Node)
  /-- A block that holds one node in place of a list of statements. -/
  | bareBlock (item : Node)
  | declaration (name : String) (type : Option Ty) (value : Node) (constant : Bool)
  | showStatement (value : Node)
  | saveStatement (identifier : String) (value : Node)
  | deleteStatement (identifier : String)
  | returnStatement (value : Node)
  | throwStatement (value : Node)
  | expressionStatement (expression : Node)
  | ifStatement (condition thenBlock elseBlock : Node)
  | whileStatement (condition body : Node)
  | forStatement (iterator : String) (iterable body : Node)
  | tryStatement (tryBlock catchName catchBlock finallyBlock : Node)
  | functionDeclaration (name : String) (parameters : List Parameter) (result : Option Ty)
      (body : Node)
      (async : Bool)
  | parameter (p : Parameter)
  | classDeclaration (name : String) (members : List Node)
  /-- A class that holds one node in place of a list of members. -/
  | bareClass (name : String) (item : Node)
  | connectStatement (url database : String)
  | queryStatement (database query : String)
  | transaction (database : String) (block : Node) (mode : String)
  | qubit (name : String)
  | gate (name : String) (qubits : List Node)
  | measurement (name qubit : String)
  | keyGeneration (name : String) (keyType : KeyType) (algorithm size database : Value)
  | publicKey (name privateKey : String)
  | encryption (name : String) (data key : Node) (algorithm : Option String)
  | decryption (name : String) (data key : Node) (algorithm : Option String)
  | hashing (name : String) (data : Node) (algorithm : Option String)
  | signing (name : String) (data key : Node) (algorithm : Option String)
  | verification (name : String) (signature data key : Node) (algorithm : Option String)
  | element (tag : String) (attributes : Table String) (content : List Node)
  | text (value : String)
  | dynamic (expression : Node)
  | await (expression : Node)
  | binary (left : Node) (operator : String) (right : Node)
  | unary (operator : String) (operand : Node)
  | number (value : Value)
  | string (value : String)
  | bool (value : Bool)
  | identifier (name : String)
  | call (function : Node) (arguments : List Node)
  | member (object : Node) (name : String)
  /-- A member given by a node in place of a name. -/
  | memberNode (object member : Node)
  deriving Repr, Inhabited

namespace Node

/-- The name of the kind of a node, as error messages give it. -/
def kindName : Node → String
  | missing => "NoneType"
  | blank => "Node"
  | blankExpression => "ExpressionNode"
  | emptyStatement => "EmptyStatementNode"
  | program _ => "ProgramNode"
  | block _ => "BlockNode"
  | bareBlock _ => "BlockNode"
  | declaration _ _ _ _ => "VariableDeclarationNode"
  | showStatement _ => "ShowStatementNode"
  | saveStatement _ _ => "SaveStatementNode"
  | deleteStatement _ => "DeleteStatementNode"
  | returnStatement _ => "ReturnStatementNode"
  | throwStatement _ => "ThrowStatementNode"
  | expressionStatement _ => "ExpressionStatementNode"
  | ifStatement _ _ _ => "IfStatementNode"
  | whileStatement _ _ => "WhileStatementNode"
  | forStatement _ _ _ => "ForStatementNode"
  | tryStatement _ _ _ _ => "TryCatchFinallyNode"
  | functionDeclaration _ _ _ _ _ => "FunctionDeclarationNode"
  | parameter _ => "ParameterNode"
  | classDeclaration _ _ => "ClassDeclarationNode"
  | bareClass _ _ => "ClassDeclarationNode"
  | connectStatement _ _ => "ConnectStatementNode"
  | queryStatement _ _ => "QueryStatementNode"
  | transaction _ _ _ => "TransactionNode"
  | qubit _ => "QuantumDefineQubitNode"
  | gate _ _ => "QuantumApplyNode"
  | measurement _ _ => "QuantumMeasureNode"
  | keyGeneration _ _ _ _ _ => "CryptoGenerateKeyNode"
  | publicKey _ _ => "CryptoDerivePublicKeyNode"
  | encryption _ _ _ _ => "CryptoEncryptNode"
  | decryption _ _ _ _ => "CryptoDecryptNode"
  | hashing _ _ _ => "CryptoHashNode"
  | signing _ _ _ _ => "CryptoSignNode"
  | verification _ _ _ _ _ => "CryptoVerifyNode"
  | element _ _ _ => "JTMLElementNode"
  | text _ => "TextNode"
  | dynamic _ => "DynamicExpressionNode"
  | await _ => "AwaitExpressionNode"
  | binary _ _ _ => "BinaryOperationNode"
  | unary _ _ => "UnaryOperationNode"
  | number _ => "NumberLiteralNode"
  | string _ => "StringLiteralNode"
  | bool _ => "BoolLiteralNode"
  | identifier _ => "IdentifierNode"
  | call _ _ => "FunctionCallNode"
  | member _ _ => "MemberAccessNode"
  | memberNode _ _ => "MemberAccessNode"

/-- A node as console lines show it. Shown and returned values are opened up;
all other nodes only give their kind. -/
def display : Node → String
  | missing => "None"
  | showStatement value => "ShowStatementNode(value=" ++ display value ++ ")"
  | returnStatement value => "ReturnStatementNode(expression=" ++ display value ++ ")"
  | n => "<opalg.compiler.ast_nodes." ++ n.kindName ++ " object at 0x>"

/-- Several nodes as console lines show them. -/
def displayAll (nodes : List Node) : String :=
  "[" ++ ", ".intercalate (nodes.map display) ++ "]"

/-- The kind of a node with the place where it is defined. -/
def qualifiedKind : Node → String
  | missing => "<class 'NoneType'>"
  | n => "<class 'opalg.compiler.ast_nodes." ++ n.kindName ++ "'>"

end Node

end PageScript
