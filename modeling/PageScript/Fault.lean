import PageScript.Ty.Basic
import PageScript.Value.Arithmetic

/-! Everything that can go wrong with a script, by cause. The wording of each
cause is given once, in `Fault.message`. -/
namespace PageScript

/-- A tree does not have the shape a task needs. The texts are kinds of
nodes. -/
inductive ShapeFault where
  | noField (kind field : String)
  | notIterable (kind : String)
  deriving Repr, DecidableEq

def ShapeFault.message : ShapeFault → String
  | .noField kind field => s!"'{kind}' object has no attribute '{field}'"
  | .notIterable kind => s!"'{kind}' object is not iterable"

/-- Tasks that handle some kinds of nodes and refuse the others. -/
inductive Task where
  | record
  | execute
  | evaluate
  | analyse
  | analyseExpression
  | lower
  | emit
  | emitExpression
  | handOver
  | serialise
  deriving Repr, DecidableEq

def Task.refusal (kind : String) : Task → String
  | .record => s!"to_dict method not implemented for {kind}."
  | .execute => s!"No execute_{kind} method"
  | .evaluate => s!"No evaluate_{kind} method"
  | .analyse => s!"No semantic analyzer for {kind}"
  | .analyseExpression => s!"No semantic analyzer for expression {kind}"
  | .lower => s!"No IR generator for {kind}"
  | .emit => s!"No generate_{kind} method"
  | .emitExpression => s!"No generate_expr_{kind} method"
  | .handOver => s!"Cannot serialize {kind} in jtml content"
  | .serialise => s!"Serialization for {kind} is not implemented."

/-- Names and types of a script do not fit together. -/
inductive AnalysisFault where
  | variableRedeclared (name : String)
  | functionRedeclared (name : String)
  | declarationMismatch (name : String) (expected actual : Option Ty)
  | conditionNotBool (statement : String)
  | arithmeticOperands (operator : String) (left right : Option Ty)
  | logicalOperands (left right : Option Ty)
  | comparisonOperands (left right : Option Ty)
  | undeclaredVariable (name : String)
  | assignmentMismatch (name : String) (expected actual : Option Ty)
  | assignmentTarget
  | unknownBinary (operator : String)
  | negatedNonNumber
  | negatedNonBool
  | unknownUnary (operator : String)
  | functionAsVariable (name : String)
  | undeclaredFunction (name : String)
  | notFunction (name : String)
  | argumentCount (name : String) (expected actual : Nat)
  | argumentMismatch (position : Nat) (name : String) (expected actual : Option Ty)
  deriving Repr

def AnalysisFault.message : AnalysisFault → String
  | .variableRedeclared name => s!"Variable '{name}' already declared"
  | .functionRedeclared name => s!"Function '{name}' already declared"
  | .declarationMismatch name expected actual =>
    s!"Type mismatch in variable '{name}': Expected {Ty.writeOption expected}, got {Ty.writeOption actual}"
  | .conditionNotBool statement => s!"Condition in {statement} statement must be of type bool"
  | .arithmeticOperands operator left right =>
    s!"Unsupported operand types for {operator}: {Ty.writeOption left} and {Ty.writeOption right}"
  | .logicalOperands left right =>
    s!"Logical operators require bool types, got {Ty.writeOption left} and {Ty.writeOption right}"
  | .comparisonOperands left right =>
    s!"Comparison requires compatible types, got {Ty.writeOption left} and {Ty.writeOption right}"
  | .undeclaredVariable name => s!"Variable '{name}' not declared"
  | .assignmentMismatch name expected actual =>
    s!"Type mismatch in assignment to '{name}': Expected {Ty.writeOption expected}, got {Ty.writeOption actual}"
  | .assignmentTarget => "Left side of assignment must be a variable"
  | .unknownBinary operator => s!"Unknown binary operator {operator}"
  | .negatedNonNumber => "Unary '-' operator requires int or float type"
  | .negatedNonBool => "Unary '!' operator requires bool type"
  | .unknownUnary operator => s!"Unknown unary operator {operator}"
  | .functionAsVariable name => s!"'{name}' is a function, not a variable"
  | .undeclaredFunction name => s!"Function '{name}' not declared"
  | .notFunction name => s!"'{name}' is not a function"
  | .argumentCount name expected actual =>
    s!"Function '{name}' expects {expected} arguments, got {actual}"
  | .argumentMismatch position name expected actual =>
    s!"Type mismatch in argument {position} of function '{name}': " ++
      s!"Expected {Ty.writeOption expected}, got {Ty.writeOption actual}"

/-- The tokens of a script do not form a program. -/
inductive SyntaxFault where
  /-- A token that cannot stand where it does, with its line and column, and
  the source line that is quoted. -/
  | unexpected (line column : Nat) (token quoted : String)
  | unexpectedEnd
  | lacksReturn (function : String)
  | closingTag (closing opening : String)
  deriving Repr, DecidableEq

def SyntaxFault.message : SyntaxFault → String
  | .unexpected line column token quoted =>
    s!"Syntax error at line {line}, column {column}: Unexpected token '{token}'\n" ++
      s!"    {quoted}\n" ++ "    " ++ String.ofList (List.replicate (column - 1) ' ') ++ "^"
  | .unexpectedEnd => "Syntax error at EOF"
  | .lacksReturn function => s!"Function '{function}' must have at least one return statement."
  | .closingTag closing opening =>
    s!"Closing tag '{closing}' does not match opening tag '{opening}'"

/-- A facility that a script asks for and that this system does not have. -/
inductive Facility where
  | returnOutsideCall
  | elementReader
  | dynamicContent
  deriving Repr, DecidableEq

def Facility.name : Facility → String
  | .returnOutsideCall => "ReturnException"
  | .elementReader => "jtmlparser"
  | .dynamicContent => "DynamicExpressionNode"

/-- Why a task on a script failed. -/
inductive Fault where
  | shape (fault : ShapeFault)
  | numeral (fault : NumeralFault)
  | arithmetic (fault : ArithmeticFault)
  | unsupported (task : Task) (kind : String)
  | analysis (fault : AnalysisFault)
  | syntactic (fault : SyntaxFault)
  | unavailable (facility : Facility)
  | undefinedVariable (name : String)
  | notProgram
  /-- A rule was applied to phrases it does not join. -/
  | misplacedPhrase
  deriving Repr

def Fault.message : Fault → String
  | .shape fault => fault.message
  | .numeral fault => fault.message
  | .arithmetic fault => fault.message
  | .unsupported task kind => task.refusal kind
  | .analysis fault => fault.message
  | .syntactic fault => fault.message
  | .unavailable facility => s!"name '{facility.name}' is not defined"
  | .undefinedVariable name => s!"Variable '{name}' not defined"
  | .notProgram => "Invalid AST root node"
  | .misplacedPhrase => "misplaced phrase"

end PageScript
