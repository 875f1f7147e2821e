import PageScript.Fault
import PageScript.Scope
import PageScript.Tree.Node

/-! Evaluating expressions in a chain of frames. -/
namespace PageScript.Run

/-- The variables of one block. -/
abbrev Frame := Table Value

/-- The result of an operator on two values. Equality gives its left operand,
and an operator without a meaning here gives nothing. -/
def operate (operator : String) (a b : Value) : Except Fault Value :=
  match Operator.ofText? operator with
  | some .add => (a.add b).mapError .arithmetic
  | some .sub => (a.sub b).mapError .arithmetic
  | some .mul => (a.mul b).mapError .arithmetic
  | some .div => (a.div b).mapError .arithmetic
  | some .and => .ok (a.and b)
  | some .or => .ok (a.or b)
  | some .eq => .ok a
  | _ => .ok .none

/-- The value of an expression. Both operands are always evaluated, the left
one first. -/
def evaluate (frames : List Frame) : Node → Except Fault Value
  | .number value => .ok value
  | .string value => .ok (.text value)
  | .bool value => .ok (.bool value)
  | .identifier name =>
    match findInChain frames name with
    | some value => .ok value
    | none => .error (.undefinedVariable name)
  | .binary left operator right => do
    let a ← evaluate frames left
    let b ← evaluate frames right
    operate operator a b
  | n => .error (.unsupported .evaluate n.kindName)

/-- The written form of a value. -/
def writeValue (v : Value) : Except Fault String :=
  v.write.mapError .numeral

end PageScript.Run
