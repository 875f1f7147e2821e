import PageScript.Markup.Walk

/-! Documents as HTML. Placeholders in attribute values and shown texts are
replaced by the values of symbols; the result is escaped. -/
namespace PageScript.Markup

def openBrace : UInt8 := 0x7b

def closeBrace : UInt8 := 0x7d

/-- The name of the placeholder that begins after an opening brace, and what
follows its closing brace. -/
def placeholder? (rest : Bytes) : Option (Bytes × Bytes) :=
  if rest.contains closeBrace then
    some (rest.takeWhile (· != closeBrace), (rest.dropWhile (· != closeBrace)).drop 1)
  else none

theorem length_placeholder?_le {rest name after : Bytes}
    (h : placeholder? rest = some (name, after)) :
    after.length ≤ rest.length := by
  unfold placeholder? at h
  split at h
  · simp only [Option.some.injEq, Prod.mk.injEq] at h
    have := Lexer.length_dropWhile_le (· != closeBrace) rest
    rw [← h.2, List.length_drop]
    omega
  · simp at h

/-- Replace each placeholder by the value of the symbol it names, or by
nothing. Values are not looked at again. An opening brace without a closing one
stays. -/
def substitute (symbols : Symbols) : Bytes → Bytes
  | [] => []
  | b :: rest =>
    if b = openBrace then
      match _h : placeholder? rest with
      | some (name, after) => (symbols.lookup name).getD [] ++ substitute symbols after
      | none => b :: substitute symbols rest
    else b :: substitute symbols rest
termination_by bytes => bytes.length
decreasing_by
  · have := length_placeholder?_le _h
    simp only [List.length_cons]
    omega
  · simp
  · simp

/-- The four bytes with a meaning in HTML become entities. -/
def escapeByte (b : UInt8) : Bytes :=
  if b = 0x26 then Utf8.encode "&amp;"
  else if b = 0x3c then Utf8.encode "&lt;"
  else if b = 0x3e then Utf8.encode "&gt;"
  else if b = 0x22 then Utf8.encode "&quot;"
  else [b]

def escape (raw : Bytes) : Bytes :=
  raw.flatMap escapeByte

/-- An attribute inside an opening tag. -/
def Attribute.html (symbols : Symbols) (a : Attribute) : Bytes :=
  Utf8.encode " " ++ a.key ++ Utf8.encode "=\"" ++ escape (substitute symbols a.value) ++
    Utf8.encode "\""

mutual

/-- An item as HTML. Definitions become comments. -/
def Item.html (symbols : Symbols) : Item → Bytes
  | .element tag attributes content =>
    Utf8.encode "<" ++ tag ++ (attributes.map (Attribute.html symbols)).flatten ++
      Utf8.encode ">" ++
      Item.htmlAll symbols content ++ Utf8.encode "</" ++ tag ++ Utf8.encode ">"
  | .shown message => escape (substitute symbols message)
  | .definition name expression =>
    Utf8.encode "<!-- define " ++ name ++ Utf8.encode " = " ++ expression ++ Utf8.encode " -->"

def Item.htmlAll (symbols : Symbols) : List Item → Bytes
  | [] => []
  | item :: rest => Item.html symbols item ++ Item.htmlAll symbols rest

end

end PageScript.Markup
