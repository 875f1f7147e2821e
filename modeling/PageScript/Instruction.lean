import PageScript.Progress
import PageScript.Tree.Node

/-! Scripts as flat lists of instructions. Blocks become pairs of brackets. -/
namespace PageScript

inductive Instruction where
  | declare (name : String) (type : Option Ty) (value : Node)
  | functionStart (name : String) (parameters : List Parameter) (result : Option Ty)
  | functionEnd (name : String)
  | returnValue (value : Node)
  | showValue (value : Node)
  | ifStart (condition : Node)
  | elseStart
  | ifEnd
  | whileStart (condition : Node)
  | whileEnd
  | forStart (iterator : String) (iterable : Node)
  | forEnd
  deriving Repr, Inhabited

namespace Instruction

/-- The name of an instruction. -/
def opcode : Instruction → String
  | declare _ _ _ => "DECLARE"
  | functionStart _ _ _ => "FUNC_DECL"
  | functionEnd _ => "FUNC_END"
  | returnValue _ => "RETURN"
  | showValue _ => "SHOW"
  | ifStart _ => "IF"
  | elseStart => "ELSE"
  | ifEnd => "ENDIF"
  | whileStart _ => "WHILE"
  | whileEnd => "ENDWHILE"
  | forStart _ _ => "FOR"
  | forEnd => "ENDFOR"

open Progress

mutual

/-- The instructions of one statement. -/
def lower : Node → Progress Instruction
  | .program statements => lowerAll statements
  | .declaration name type value _ => one (declare name type value)
  | .functionDeclaration name parameters result body _ =>
    ((one (functionStart name parameters result)).andThen fun _ => lowerBlock body).andThen
      fun _ => one (functionEnd name)
  | .returnStatement value => one (returnValue value)
  | .showStatement value => one (showValue value)
  | .ifStatement condition thenBlock elseBlock =>
    (((one (ifStart condition)).andThen fun _ => lowerBlock thenBlock).andThen fun _ =>
      match elseBlock with
      | .missing => nothing
      | elseBlock => (one elseStart).andThen fun _ => lowerBlock elseBlock).andThen
        fun _ => one ifEnd
  | .whileStatement condition body =>
    ((one (whileStart condition)).andThen fun _ => lowerBlock body).andThen fun _ => one whileEnd
  | .forStatement iterator iterable body =>
    ((one (forStart iterator iterable)).andThen fun _ => lowerBlock body).andThen fun _ =>
      one forEnd
  | n => failed (.unsupported .lower n.kindName)

/-- The instructions of a block. -/
def lowerBlock : Node → Progress Instruction
  | .block statements => lowerAll statements
  | .program statements => lowerAll statements
  | .bareBlock item => failed (.shape (.notIterable item.kindName))
  | n => failed (.shape (.noField n.kindName "statements"))

/-- The instructions of several statements. -/
def lowerAll : List Node → Progress Instruction
  | [] => nothing
  | statement :: rest => (lower statement).andThen fun _ => lowerAll rest

end

end Instruction

end PageScript
