import PageScript.Text.Hex
import PageScript.Text.Printable

/-! Texts in quotes. Whatever could not be read off the quoted text is
escaped. -/
namespace PageScript.Quoted

/-- The code of a character behind a backslash, with as few digits as its size
allows: two, four or eight. -/
def codeEscape (c : Char) : List Char :=
  if c.toNat < 0x100 then '\\' :: 'x' :: Hex.digits 2 c.toNat
  else if c.toNat < 0x10000 then '\\' :: 'u' :: Hex.digits 4 c.toNat
  else '\\' :: 'U' :: Hex.digits 8 c.toNat

/-- A character between quotes of the given kind. -/
def encodeChar (quote c : Char) : List Char :=
  if c = '\\' ∨ c = quote then ['\\', c]
  else if c = '\n' then ['\\', 'n']
  else if c = '\r' then ['\\', 'r']
  else if c = '\t' then ['\\', 't']
  else if Printable.isPrintable c then [c]
  else codeEscape c

/-- The quote that surrounds a text: the single one, unless it occurs in the
text and the double one does not. -/
def quoteFor (s : List Char) : Char :=
  if s.contains '\'' && !s.contains '"' then '"' else '\''

/-- A text in quotes. -/
def encode (s : String) : String :=
  let quote := quoteFor s.toList
  String.ofList (quote :: s.toList.flatMap (encodeChar quote) ++ [quote])

end PageScript.Quoted
