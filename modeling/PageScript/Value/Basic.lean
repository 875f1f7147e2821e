import PageScript.Number.Written
import PageScript.Text.Quoted

/-! The values that scripts compute with, their truth, their written form and
the items a loop draws from them. -/
namespace PageScript

/-- A value of a running script. Truth values take part in arithmetic as zero
and one. No script can write a list; lists only come from outside. -/
inductive Value where
  | none
  | bool (b : Bool)
  | int (n : Int)
  | float (x : Float)
  | text (s : String)
  | list (items : List Value)
  deriving Repr, Inhabited

namespace Value

/-- The name of the kind of a value, as error messages give it. -/
def kindName : Value → String
  | none => "NoneType"
  | bool _ => "bool"
  | int _ => "int"
  | float _ => "float"
  | text _ => "str"
  | list _ => "list"

/-- Zero, the empty text, the empty list, `false` and nothing count as
false. -/
def truthy : Value → Bool
  | none => false
  | bool b => b
  | int n => n != 0
  | float x => !(x == 0)
  | text s => s != ""
  | list items => !items.isEmpty

mutual

/-- The written form of a value inside a list, where texts stand in quotes. -/
def writeItem : Value → Except NumeralFault String
  | none => .ok "None"
  | bool b => .ok (if b then "True" else "False")
  | int n => writeInt n
  | float x => .ok (writeDouble x)
  | text s => .ok (Quoted.encode s)
  | list items => do
    let parts ← writeItems items
    return "[" ++ ", ".intercalate parts ++ "]"

def writeItems : List Value → Except NumeralFault (List String)
  | [] => .ok []
  | v :: rest => do
    let first ← writeItem v
    let others ← writeItems rest
    return first :: others

end

/-- The written form of a value. A text stands for itself. -/
def write : Value → Except NumeralFault String
  | text s => .ok s
  | v => writeItem v

/-- What a loop over the value runs through: the characters of a text, the
items of a list, and nothing else can be looped over. -/
def items? : Value → Option (List Value)
  | text s => some (s.toList.map fun c => text (String.ofList [c]))
  | list items => some items
  | _ => Option.none

end Value

end PageScript
