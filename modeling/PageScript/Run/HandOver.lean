import PageScript.Run.Evaluate

/-! Handing a page element to the markup language. The element becomes markup
source with its values filled in. -/
namespace PageScript.Run

/-- The attributes of an element, with a blank before them if there are any. -/
def attributeSource (attributes : Table String) : String :=
  if attributes.isEmpty then ""
  else " " ++ ", ".intercalate (attributes.entries.map fun (key, value) => key ++ ":\"" ++
    value ++ "\"")

/-- The content of an element: shown values and declarations. Nothing else can
be handed over. -/
def contentSource (frames : List Frame) : List Node → Except Fault String
  | [] => .ok ""
  | .showStatement value :: rest => do
    let v ← evaluate frames value
    let text ← writeValue v
    let others ← contentSource frames rest
    return "show \"" ++ text ++ "\"\\\\" ++ others
  | .declaration name _ value _ :: rest => do
    let v ← evaluate frames value
    let text ← writeValue v
    let others ← contentSource frames rest
    return "define " ++ name ++ "=\"" ++ text ++ "\"\\\\" ++ others
  | n :: _ => .error (.unsupported .handOver n.kindName)

/-- The markup source of an element. -/
def elementSource (frames : List Frame) (tag : String) (attributes : Table String)
    (content : List Node) :
    Except Fault String := do
  let inside ← contentSource frames content
  return "#" ++ tag ++ attributeSource attributes ++ " \\" ++ inside ++ "#" ++ tag

/-- The markup source of a node that should be an element. -/
def markupSource (frames : List Frame) : Node → Except Fault String
  | .element tag attributes content => elementSource frames tag attributes content
  | n => .error (.shape (.noField n.kindName "tag_name"))

end PageScript.Run
