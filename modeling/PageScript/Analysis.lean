import PageScript.Fault
import PageScript.Tree.Node

/-! Checking the names and types of a script. All blocks share one table of
symbols. -/
namespace PageScript.Analysis

/-- What a name has been declared as. -/
inductive Declared where
  | variable (type : Option Ty)
  | function (parameters : List (Option Ty)) (result : Option Ty)
  deriving Repr, Inhabited

abbrev Symbols := Table Declared

def fail {α : Type} (fault : AnalysisFault) : Except Fault α := .error (.analysis fault)

/-- Whether a type is one of the two number types. -/
def isNumeric : Option Ty → Bool
  | some .int => true
  | some .float => true
  | _ => false

def isBool : Option Ty → Bool
  | some .bool => true
  | _ => false

def isFloat : Option Ty → Bool
  | some .float => true
  | _ => false

/-- The type of an arithmetic operation: a double if either operand is one. -/
def arithmeticType (operator : String) (left right : Option Ty) : Except Fault (Option Ty) :=
  if isNumeric left && isNumeric right then
    .ok (some (if isFloat left || isFloat right then .float else .int))
  else fail (.arithmeticOperands operator left right)

def logicalType (left right : Option Ty) : Except Fault (Option Ty) :=
  if isBool left && isBool right then .ok (some .bool) else fail (.logicalOperands left right)

def comparisonType (left right : Option Ty) : Except Fault (Option Ty) :=
  if Ty.accepts left right then .ok (some .bool) else fail (.comparisonOperands left right)

/-- The type of an assignment, which is that of the variable assigned to. -/
def assignmentType (symbols : Symbols) (target : Node) (value : Option Ty) :
    Except Fault (Option Ty) :=
  match target with
  | .identifier name =>
    match symbols.get? name with
    | some (.variable type) =>
      if Ty.accepts type value then .ok type else fail (.assignmentMismatch name type value)
    | some (.function _ _) => fail (.functionAsVariable name)
    | none => fail (.undeclaredVariable name)
  | _ => fail .assignmentTarget

/-- The type of a binary operation whose operands have been checked. -/
def binaryType (symbols : Symbols) (target : Node) (operator : String) (left right : Option Ty) :
    Except Fault (Option Ty) :=
  match Operator.ofText? operator with
  | some .add | some .sub | some .mul | some .div => arithmeticType operator left right
  | some .and | some .or => logicalType left right
  | some .eq | some .ne | some .lt | some .gt | some .le | some .ge => comparisonType left right
  | some .assign => assignmentType symbols target right
  | _ => fail (.unknownBinary operator)

def unaryType (operator : String) (operand : Option Ty) : Except Fault (Option Ty) :=
  if operator = "-" then
    if isNumeric operand then .ok operand else fail .negatedNonNumber
  else if operator = "!" then
    if isBool operand then .ok (some .bool) else fail .negatedNonBool
  else fail (.unknownUnary operator)

/-- The type of a number literal. Truth values count as integers. -/
def literalType : Value → Option Ty
  | .int _ => some .int
  | .bool _ => some .int
  | .float _ => some .float
  | _ => none

/-- The type of a variable. -/
def variableType (symbols : Symbols) (name : String) : Except Fault (Option Ty) :=
  match symbols.get? name with
  | none => fail (.undeclaredVariable name)
  | some (.function _ _) => fail (.functionAsVariable name)
  | some (.variable type) => .ok type

/-- The parameters and the result of a function that is called with so many
arguments. -/
def calledFunction (symbols : Symbols) (function : Node) (count : Nat) :
    Except Fault (String × List (Option Ty) × Option Ty) :=
  match function with
  | .identifier name =>
    if name = "" then fail (.undeclaredFunction name)
    else match symbols.get? name with
      | none => fail (.undeclaredFunction name)
      | some (.variable _) => fail (.notFunction name)
      | some (.function parameters result) =>
        if parameters.length = count then .ok (name, parameters, result)
        else fail (.argumentCount name parameters.length count)
  | _ => fail (.undeclaredFunction "None")

mutual

/-- The type of an expression. -/
def typeOf (symbols : Symbols) : Node → Except Fault (Option Ty)
  | .binary left operator right => do
    let l ← typeOf symbols left
    let r ← typeOf symbols right
    binaryType symbols left operator l r
  | .unary operator operand => do
    let t ← typeOf symbols operand
    unaryType operator t
  | .number value => .ok (literalType value)
  | .string _ => .ok (some .string)
  | .bool _ => .ok (some .bool)
  | .identifier name => variableType symbols name
  | .call function arguments => do
    let (name, parameters, result) ← calledFunction symbols function arguments.length
    checkArguments symbols name 1 parameters arguments
    return result
  | .member object _ => do
    let _ ← typeOf symbols object
    return some .string
  | .memberNode object _ => do
    let _ ← typeOf symbols object
    return some .string
  | .await _ => .ok (some .void)
  | n => .error (.unsupported .analyseExpression n.kindName)

/-- Check arguments against parameters, in order. -/
def checkArguments (symbols : Symbols) (name : String) (position : Nat) :
    List (Option Ty) → List Node → Except Fault Unit
  | parameter :: parameters, argument :: arguments => do
    let t ← typeOf symbols argument
    if Ty.accepts parameter t then checkArguments symbols name (position + 1) parameters arguments
    else fail (.argumentMismatch position name parameter t)
  | _, _ => .ok ()

end

/-- The symbols after a check, and the fault that ended it. -/
structure Analysed where
  symbols : Symbols
  fault : Option Fault
  deriving Inhabited

namespace Analysed

/-- Go on with the symbols found, unless there was a fault. -/
def andThen (first : Analysed) (next : Symbols → Analysed) : Analysed :=
  match first.fault with
  | none => next first.symbols
  | some _ => first

/-- Check an expression and go on with its type. -/
def withType (symbols : Symbols) (result : Except Fault (Option Ty))
    (next : Option Ty → Analysed) : Analysed :=
  match result with
  | .ok t => next t
  | .error fault => ⟨symbols, some fault⟩

end Analysed

open Analysed

/-- Declare a variable with a value of this type. -/
def declare (symbols : Symbols) (name : String) (type actual : Option Ty) : Analysed :=
  let resolved := Ty.resolve type
  if resolved.isSome && !Ty.accepts resolved actual then
    ⟨symbols, some (.analysis (.declarationMismatch name resolved actual))⟩
  else ⟨symbols.set name (.variable resolved), none⟩

/-- Declare the parameters of a function as variables, and then the
function. -/
def declareFunction (symbols : Symbols) (name : String) (parameters : List Parameter)
    (result : Option Ty) :
    Symbols :=
  let withParameters :=
    parameters.foldl (fun s p => s.set p.name (.variable (Ty.resolve p.type))) symbols
  withParameters.set name (.function (parameters.map fun p => Ty.resolve p.type)
    (Ty.resolve result))

mutual

/-- Check one statement. -/
def analyse (symbols : Symbols) : Node → Analysed
  | .program statements => analyseAll symbols statements
  | .declaration name type value _ =>
    if symbols.contains name then ⟨symbols, some (.analysis (.variableRedeclared name))⟩
    else withType symbols (typeOf symbols value) fun actual => declare symbols name type actual
  | .functionDeclaration name parameters result body _ =>
    if symbols.contains name then ⟨symbols, some (.analysis (.functionRedeclared name))⟩
    else analyseBlock (declareFunction symbols name parameters result) body
  | .returnStatement .missing => ⟨symbols, none⟩
  | .returnStatement value => withType symbols (typeOf symbols value) fun _ => ⟨symbols, none⟩
  | .showStatement value => withType symbols (typeOf symbols value) fun _ => ⟨symbols, none⟩
  | .ifStatement condition thenBlock elseBlock =>
    withType symbols (typeOf symbols condition) fun t =>
      if !isBool t then ⟨symbols, some (.analysis (.conditionNotBool "if"))⟩
      else (analyseBlock symbols thenBlock).andThen fun symbols =>
        match elseBlock with
        | .missing => ⟨symbols, none⟩
        | elseBlock => analyseBlock symbols elseBlock
  | .whileStatement condition body =>
    withType symbols (typeOf symbols condition) fun t =>
      if !isBool t then ⟨symbols, some (.analysis (.conditionNotBool "while"))⟩
      else analyseBlock symbols body
  | .forStatement _ iterable body =>
    withType symbols (typeOf symbols iterable) fun _ => analyseBlock symbols body
  | n => ⟨symbols, some (.unsupported .analyse n.kindName)⟩

/-- Check the statements of a block. -/
def analyseBlock (symbols : Symbols) : Node → Analysed
  | .block statements => analyseAll symbols statements
  | .program statements => analyseAll symbols statements
  | .bareBlock item => ⟨symbols, some (.shape (.notIterable item.kindName))⟩
  | n => ⟨symbols, some (.shape (.noField n.kindName "statements"))⟩

/-- Check statements in order, up to the first fault. -/
def analyseAll (symbols : Symbols) : List Node → Analysed
  | [] => ⟨symbols, none⟩
  | statement :: rest => (analyse symbols statement).andThen fun symbols => analyseAll symbols rest

end

end PageScript.Analysis
