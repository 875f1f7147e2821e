import PageScript.Fault

/-! The compatibility that types themselves decide. -/
namespace PageScript.Ty

mutual

/-- Whether a type counts `other` as compatible: any type does, a function type
compares part by part, and types with arguments cannot tell. -/
def compatible : Ty → Ty → Except Fault Bool
  | .any, _ => .ok true
  | .named name, _ => .error (.shape (.noField (Ty.named name).kindName "is_compatible_with"))
  | .generic name arguments, _ =>
    .error (.shape (.noField (Ty.generic name arguments).kindName "is_compatible_with"))
  | .function parameters result, .function parameters' result' =>
    if parameters.length = parameters'.length then do
      if ← compatibleAll parameters parameters' then compatible result result' else return false
    else .ok false
  | .function _ _, _ => .ok false
  | t, other => .ok (other.family.within t.family)

/-- Whether types are compatible one by one. -/
def compatibleAll : List Ty → List Ty → Except Fault Bool
  | t :: rest, other :: others => do
    if ← compatible t other then compatibleAll rest others else return false
  | _, _ => .ok true

end

end PageScript.Ty
