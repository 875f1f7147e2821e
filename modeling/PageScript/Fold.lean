import PageScript.Fault
import PageScript.Tree.Node

/-! Constant folding: an operation on two number literals becomes its result.
Only the initial values of declarations, and what stands at the top of a
program, are looked at. -/
namespace PageScript.Fold

/-- The result of an operator on two constants. An operator without a meaning
here gives nothing. -/
def constant (operator : String) (a b : Value) : Except ArithmeticFault Value :=
  match Operator.ofText? operator with
  | some .add => a.add b
  | some .sub => a.sub b
  | some .mul => a.mul b
  | some .div => a.div b
  | some .eq => .ok (.bool (a.same b))
  | some .ne => .ok (.bool (!a.same b))
  | some .lt => Value.comparison "<" (· == .lt) a b
  | some .gt => Value.comparison ">" (· == .gt) a b
  | some .le => Value.comparison "<=" (· != .gt) a b
  | some .ge => Value.comparison ">=" (· != .lt) a b
  | some .and => .ok (a.and b)
  | some .or => .ok (a.or b)
  | _ => .ok .none

/-- An operation whose operands have been folded. -/
def operation (left : Node) (operator : String) (right : Node) : Except Fault Node :=
  match left, right with
  | .number a, .number b => do
    let value ← (constant operator a b).mapError Fault.arithmetic
    return .number value
  | _, _ => .ok (.binary left operator right)

mutual

/-- Fold a tree. -/
def fold : Node → Except Fault Node
  | .program statements => do
    let statements ← foldAll statements
    return .program statements
  | .declaration name type value constant => do
    let value ← fold value
    return .declaration name type value constant
  | .binary left operator right => do
    let left ← fold left
    let right ← fold right
    operation left operator right
  | n => .ok n

def foldAll : List Node → Except Fault (List Node)
  | [] => .ok []
  | n :: rest => do
    let first ← fold n
    let others ← foldAll rest
    return first :: others

end

end PageScript.Fold
