import PageScript.Markup.Token

/-! Markup documents: elements with attributes, shown texts and definitions,
and how they are read from tokens. -/
namespace PageScript.Markup

structure Attribute where
  key : Bytes
  value : Bytes
  deriving Repr, DecidableEq, Inhabited

/-- An item of a document. A whole document is one element. -/
inductive Item where
  | element (tag : Bytes) (attributes : List Attribute) (content : List Item)
  | shown (message : Bytes)
  | definition (name expression : Bytes)
  deriving Repr, Inhabited

/-- What a reader returns: what it has read and the tokens it has left. -/
abbrev Reader (α : Type) := List Token → Except Fault (α × List Token)

namespace Reader

/-- The kind of the next token. -/
def next? (tokens : List Token) : Option Kind :=
  tokens.head?.map Token.kind

/-- Take a token of the given kind. -/
def take (kind : Kind) (what : Expectation) : Reader Token
  | [] => .error .exhausted
  | t :: rest => if t.kind = kind then .ok (t, rest) else .error (.expected what t.position)

/-- A key, a colon and a literal. -/
def oneAttribute : Reader Attribute := fun tokens => do
  let (key, tokens) ← take .identifier .attributeKey tokens
  let (_, tokens) ← take .colon .attributeColon tokens
  let (value, tokens) ← take .text .attributeText tokens
  return (⟨key.text, value.text⟩, tokens)

/-- Attributes after the first: each one follows a comma. -/
def moreAttributes : Nat → Reader (List Attribute)
  | 0, _ => .error .exhausted
  | bound + 1, tokens =>
    match tokens with
    | ⟨.comma, _, _⟩ :: rest => do
      let (first, rest) ← oneAttribute rest
      let (others, rest) ← moreAttributes bound rest
      return (first :: others, rest)
    | _ => .ok ([], tokens)

/-- Whether a key, a colon and a literal come next. -/
def atAttribute : List Token → Bool
  | a :: b :: c :: _ => a.kind == .identifier && b.kind == .colon && c.kind == .text
  | _ => false

/-- The attributes of an element, if any, and the terminator that may follow
them. -/
def attributes : Reader (List Attribute) := fun tokens =>
  if atAttribute tokens then do
    let (first, tokens) ← oneAttribute tokens
    let (others, tokens) ← moreAttributes (tokens.length + 1) tokens
    match tokens with
    | ⟨.terminator, _, _⟩ :: rest => return (first :: others, rest)
    | _ => return (first :: others, tokens)
  else .ok ([], tokens)

/-- A shown text, from the word `show` on. -/
def shown : Reader Item := fun tokens => do
  let (message, tokens) ← take .text .shownText (tokens.drop 1)
  let (_, tokens) ← take .terminator .showEnd tokens
  return (.shown message.text, tokens)

/-- What a definition defines its name as: an identifier or a literal. -/
def definedValue : Reader Bytes
  | [] => .error .exhausted
  | t :: rest =>
    if t.kind = .identifier ∨ t.kind = .text then .ok (t.text, rest) else .error .expectedValue

/-- A definition, from the word `define` on. -/
def definition : Reader Item := fun tokens => do
  let (name, tokens) ← take .identifier .definedName (tokens.drop 1)
  let (_, tokens) ← take .equals .defineEquals tokens
  let (value, tokens) ← definedValue tokens
  let (_, tokens) ← take .terminator .defineEnd tokens
  return (.definition name.text value, tokens)

mutual

/-- An element with everything in it. -/
def element : Nat → Reader Item
  | 0, _ => .error .exhausted
  | bound + 1, tokens => do
    let (_, tokens) ← take .hash .hash tokens
    let (opening, tokens) ← take .identifier .tag tokens
    let (attributes, tokens) ← attributes tokens
    let (content, tokens) ← items bound tokens
    let (_, tokens) ← take .closingHash .closingHash tokens
    let (closing, tokens) ← take .identifier .closingTag tokens
    if closing.text = opening.text then return (.element opening.text attributes content, tokens)
    else throw (.mismatched closing.text opening.text)

/-- The items up to the mark that closes the element. -/
def items : Nat → Reader (List Item)
  | 0, _ => .error .exhausted
  | bound + 1, tokens =>
    match tokens with
    | [] => .error .exhausted
    | t :: _ =>
      if t.kind = .closingHash then .ok ([], tokens)
      else do
        let (first, rest) ← match t.kind with
          | .showWord => shown tokens
          | .define => definition tokens
          | .hash => element bound tokens
          | _ => throw (.unexpectedToken t.text)
        let (others, rest) ← items bound rest
        return (first :: others, rest)

end

/-- Read one element. Every item takes a token, so the number of tokens bounds
the depth and the length of the reading. -/
def document : Reader Item := fun tokens =>
  element (tokens.length + 1) tokens

/-- Read up to so many elements, one after the other, until one cannot be
read. -/
def documents : Nat → List Token → List (Except Fault Item)
  | 0, _ => []
  | count + 1, tokens =>
    match document tokens with
    | .ok (item, rest) => .ok item :: documents count rest
    | .error fault => [.error fault]

end Reader

/-- Read one element from bytes. -/
def Item.read (source : Bytes) : Except Fault Item := do
  let tokens ← Lexer.tokens source
  let (item, _) ← Reader.document tokens
  return item

end PageScript.Markup
