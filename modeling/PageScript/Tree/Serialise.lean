import PageScript.Fault
import PageScript.Tree.Node

/-! Expressions of the simplest kinds as source text. No parentheses are
added. -/
namespace PageScript.Node

/-- The text of an expression. Only operations, numbers, texts and identifiers
have one. -/
def serialise : Node → Except Fault String
  | binary left operator right => do
    let l ← serialise left
    let r ← serialise right
    return l ++ " " ++ operator ++ " " ++ r
  | unary operator operand => do
    let x ← serialise operand
    return operator ++ x
  | number value => value.write.mapError .numeral
  | string value => .ok ("\"" ++ value ++ "\"")
  | identifier name => .ok name
  | n => .error (.unsupported .serialise n.qualifiedKind)

end PageScript.Node
