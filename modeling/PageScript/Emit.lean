import PageScript.Progress
import PageScript.Tree.Node

/-! Scripts as program text with braces, line by line. -/
namespace PageScript.Emit

open Progress

/-- The name of a type. Types without a meaning of their own are left to be
inferred, and types with arguments have no name. -/
def typeName : Option Ty → Except Fault String
  | none => .ok "var"
  | some t => match t with
    | .void => .ok "void"
    | .int => .ok "int"
    | .float => .ok "float"
    | .string => .ok "string"
    | .bool => .ok "bool"
    | .custom name => .ok name
    | .named _ => .error (.shape (.noField t.kindName "generic_args"))
    | .generic _ _ => .error (.shape (.noField t.kindName "generic_args"))
    | .any => .error (.shape (.noField t.kindName "generic_args"))
    | .plain => .ok "var"
    | .primitive _ => .ok "var"
    | .function _ _ => .ok "var"

mutual

/-- The text of an expression. Every operation stands in parentheses. -/
def expression : Node → Except Fault String
  | .binary left operator right => do
    let l ← expression left
    let r ← expression right
    return "(" ++ l ++ " " ++ operator ++ " " ++ r ++ ")"
  | .unary operator operand => do
    let x ← expression operand
    return "(" ++ operator ++ x ++ ")"
  | .number value => value.write.mapError .numeral
  | .string value => .ok ("\"" ++ value ++ "\"")
  | .bool value => .ok (if value then "true" else "false")
  | .identifier name => .ok name
  | .call function arguments => do
    let f ← expression function
    let xs ← expressions arguments
    return f ++ "(" ++ ", ".intercalate xs ++ ")"
  | .member object name => do
    let o ← expression object
    return o ++ "." ++ name
  | .memberNode object part => do
    let o ← expression object
    return o ++ "." ++ part.display
  | .await operand => do
    let x ← expression operand
    return "await " ++ x
  | n => .error (.unsupported .emitExpression n.kindName)

def expressions : List Node → Except Fault (List String)
  | [] => .ok []
  | n :: rest => do
    let first ← expression n
    let others ← expressions rest
    return first :: others

end

/-- The parameters of a function, each with its type. -/
def parameterList (parameters : List Parameter) : Except Fault String := do
  let parts ← parameters.mapM fun p => do
    let type ← typeName p.type
    return type ++ " " ++ p.name
  return ", ".intercalate parts

/-- The first line of a function. -/
def functionHead (name : String) (parameters : List Parameter) (result : Option Ty) (async : Bool) :
    Except Fault String := do
  let result ← typeName result
  let parameters ← parameterList parameters
  return (if async then "async " else "") ++ "function " ++ name ++ "(" ++ parameters ++ "): " ++
    result ++ " \x7b"

/-- The line of a declaration. -/
def declaration (name : String) (type : Option Ty) (value : Node) (constant : Bool) :
    Except Fault String := do
  let type ← typeName type
  let value ← expression value
  return (if constant then "const " else "") ++ type ++ " " ++ name ++ " = " ++ value ++ ";"

/-- The line that closes a block. -/
def closing : String := "\x7d"

/-- A line made of the text of an expression. -/
def lineOf (before : String) (n : Node) (after : String) : Except Fault String := do
  let text ← expression n
  return before ++ text ++ after

/-- An opening line, a body and the closing line. -/
def braced (opening : Except Fault String) (body : Unit → Progress String) : Progress String :=
  ((withResult opening one).andThen body).andThen fun _ => one closing

mutual

/-- The lines of one statement. -/
def emit : Node → Progress String
  | .program statements => emitAll statements
  | .declaration name type value constant => withResult (declaration name type value constant) one
  | .functionDeclaration name parameters result body async =>
    braced (functionHead name parameters result async) fun _ => emitBlock body
  | .returnStatement .missing => one "return;"
  | .returnStatement value => withResult (lineOf "return " value ";") one
  | .showStatement value => withResult (lineOf "show(" value ");") one
  | .saveStatement _ _ => failed (.shape (.noField "SaveStatementNode" "expression"))
  | .deleteStatement name => one ("delete(" ++ name ++ ");")
  | .ifStatement condition thenBlock elseBlock =>
    (braced (lineOf "if (" condition ") \x7b") fun _ => emitBlock thenBlock).andThen fun _ =>
      match elseBlock with
      | .missing => nothing
      | elseBlock => braced (.ok "else \x7b") fun _ => emitBlock elseBlock
  | .whileStatement condition body =>
    braced (lineOf "while (" condition ") \x7b") fun _ => emitBlock body
  | .forStatement iterator iterable body =>
    braced (lineOf ("for (let " ++ iterator ++ " of ") iterable ") \x7b") fun _ => emitBlock body
  | .expressionStatement value => withResult (lineOf "" value ";") one
  | n => failed (.unsupported .emit n.kindName)

/-- The lines of a block. -/
def emitBlock : Node → Progress String
  | .block statements => emitAll statements
  | .program statements => emitAll statements
  | .bareBlock item => failed (.shape (.notIterable item.kindName))
  | n => failed (.shape (.noField n.kindName "statements"))

/-- The lines of several statements. -/
def emitAll : List Node → Progress String
  | [] => nothing
  | statement :: rest => (emit statement).andThen fun _ => emitAll rest

end

/-- Lines as one text. -/
def joinLines (lines : List String) : String :=
  "\n".intercalate lines

end PageScript.Emit
