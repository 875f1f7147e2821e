import PageScript.Markup.Item

/-! Walking through a document: each item leaves a line on the console, and
definitions are remembered. -/
namespace PageScript.Markup

/-- Defined names with their values, the latest first. -/
abbrev Symbols := List (Bytes × Bytes)

/-- What a name stands for: its latest value, or itself if it was never
defined. -/
def Symbols.resolve (symbols : Symbols) (name : Bytes) : Bytes :=
  (symbols.lookup name).getD name

/-- What was printed, and the definitions known afterwards. -/
structure Walked where
  output : Bytes
  symbols : Symbols
  deriving Repr, DecidableEq

/-- A console line. -/
def lineOf (parts : List Bytes) : Bytes :=
  parts.flatten ++ [0x0a]

mutual

def Item.walk : Item → Symbols → Walked
  | .element tag attributes content, symbols =>
    let inside := Item.walkAll content symbols
    ⟨lineOf [Utf8.encode "Entering element <", tag, Utf8.encode ">"] ++
        (attributes.map fun a => lineOf
          [Utf8.encode "  [Attribute] ", a.key, Utf8.encode " = ", a.value]).flatten ++
        inside.output ++ lineOf [Utf8.encode "Exiting element <", tag, Utf8.encode ">"],
      inside.symbols⟩
  | .shown message, symbols => ⟨lineOf [Utf8.encode "[SHOW] ", message], symbols⟩
  | .definition name expression, symbols =>
    let value := symbols.resolve expression
    ⟨lineOf [Utf8.encode "[DEFINE] ", name, Utf8.encode " = ", value], (name, value) :: symbols⟩

def Item.walkAll : List Item → Symbols → Walked
  | [], symbols => ⟨[], symbols⟩
  | item :: rest, symbols =>
    let first := item.walk symbols
    let others := Item.walkAll rest first.symbols
    ⟨first.output ++ others.output, others.symbols⟩

end

/-- The console after interpreting some source, and the definitions then
known. -/
structure Interpreted where
  output : Bytes
  errors : Bytes
  symbols : Symbols
  deriving Repr, DecidableEq

/-- Read one element and walk through it. A document that cannot be read leaves
only a line on the error channel. -/
def interpret (source : Bytes) (symbols : Symbols) : Interpreted :=
  match Item.read source with
  | .ok item => let w := item.walk symbols; ⟨w.output, [], w.symbols⟩
  | .error fault => ⟨[], lineOf [Utf8.encode "Interpretation error: ", fault.message], symbols⟩

end PageScript.Markup
