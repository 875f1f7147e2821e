import PageScript.Text.Digit
import PageScript.Token.Basic

/-! Cutting a source text into tokens. Every character of the text belongs to
exactly one piece: a token, a comment, a single blank or a single stray
character. -/
namespace PageScript

/-- What one step of the scanner consumes. -/
inductive Piece where
  | blank (c : Char)
  /-- A comment with its two slashes, up to the end of the line. -/
  | comment (text : List Char)
  | token (kind : Terminal) (value : Value) (lexeme : List Char)
  /-- A character that begins no token. -/
  | stray (c : Char)
  /-- A whole number of more digits than can be read. -/
  | overlong (digits : List Char)
  deriving Repr, Inhabited

namespace Piece

/-- The characters a piece covers. -/
def text : Piece → List Char
  | blank c => [c]
  | comment text => text
  | token _ _ lexeme => lexeme
  | stray c => [c]
  | overlong digits => digits

end Piece

namespace Lexer

def isBlank (c : Char) : Bool :=
  c == ' ' || c == '\t' || c == '\r' || c == '\n'

def isWordStart (c : Char) : Bool :=
  c.isAlpha || c == '_'

def isWordPart (c : Char) : Bool :=
  c.isAlphanum || c == '_'

/-- The token that a whole word is. A truth value carries its meaning, any
other word its spelling. -/
def wordToken (word : List Char) : Piece :=
  let spelling := String.ofList word
  match Terminal.reserved.lookup spelling with
  | some .boolean => .token .boolean (.bool (spelling == "true")) word
  | some kind => .token kind (.text spelling) word
  | none => .token .identifier (.text spelling) word

/-- The body of a text literal whose opening quote has been read, and what
follows the closing quote. A backslash takes the next character with it, and no
line end may occur. The body keeps its backslashes. -/
def literalBody : List Char → Option (List Char × List Char)
  | [] => none
  | '"' :: rest => some ([], rest)
  | '\\' :: c :: rest =>
    if c = '\n' then none else (literalBody rest).map fun (body, after) =>
      ('\\' :: c :: body, after)
  | ['\\'] => none
  | c :: rest =>
    if c = '\n' then none else (literalBody rest).map fun (body, after) => (c :: body, after)

/-- The digits after a decimal point and what follows them, if a point and a
digit come next. -/
def fraction? : List Char → Option (List Char × List Char)
  | '.' :: c :: rest =>
    if Digit.isDigit c then some (c :: rest.takeWhile Digit.isDigit,
      rest.dropWhile Digit.isDigit) else none
  | _ => none

/-- The number that begins with the digit `c`. -/
def numberPiece (c : Char) (rest : List Char) : Piece × List Char :=
  let digits := c :: rest.takeWhile Digit.isDigit
  let after := rest.dropWhile Digit.isDigit
  match fraction? after with
  | some (places, beyond) =>
    let x := Double.ofDecimal false (Digit.number (digits ++ places)) (-(places.length : Int))
    (.token .decimal (.float x) (digits ++ '.' :: places), beyond)
  | none =>
    if digitLimit < digits.length then (.overlong digits, after)
    else (.token .integer (.int (Digit.number digits)) digits, after)

/-- The first mark that begins with `c` and goes on in `rest`, or a stray
character. -/
def markPiece (c : Char) (rest : List Char) : Piece × List Char :=
  match Terminal.marks.find? (fun mark => mark.1.toList.isPrefixOf (c :: rest)) with
  | some (spelling, kind) =>
    (.token kind (.text spelling) spelling.toList, rest.drop (spelling.toList.length - 1))
  | none => (.stray c, rest)

/-- The piece that begins with `c`, and the characters after it. -/
def piece (c : Char) (rest : List Char) : Piece × List Char :=
  if isBlank c then (.blank c, rest)
  else if c == '/' && rest.head? == some '/' then
    (.comment (c :: rest.takeWhile (· != '\n')), rest.dropWhile (· != '\n'))
  else if isWordStart c then (wordToken (c :: rest.takeWhile isWordPart), rest.dropWhile isWordPart)
  else if Digit.isDigit c then numberPiece c rest
  else if c == '"' then
    match literalBody rest with
    | some (body, after) =>
      (.token .text (.text (String.ofList body)) ('"' :: body ++ ['"']), after)
    | none => (.stray c, rest)
  else markPiece c rest

theorem length_dropWhile_le {α : Type} (p : α → Bool) (xs : List α) :
    (xs.dropWhile p).length ≤ xs.length := by
  induction xs with
  | nil => simp
  | cons x rest ih =>
    rw [List.dropWhile_cons]
    split
    · exact Nat.le_succ_of_le ih
    · exact Nat.le_refl _

theorem length_literalBody_lt {s body after : List Char} (h : literalBody s = some (body, after)) :
    after.length < s.length := by
  fun_induction literalBody s generalizing body after with
  | case1 => simp at h
  | case2 rest => simp at h; simp [h.2]
  | case3 => simp at h
  | case4 c rest _ ih =>
    simp only [Option.map_eq_some_iff] at h
    obtain ⟨⟨b, a⟩, hb, he⟩ := h
    cases he
    have := ih hb
    simp only [List.length_cons]
    omega
  | case5 => simp at h
  | case6 => simp at h
  | case7 c rest _ _ _ _ ih =>
    simp only [Option.map_eq_some_iff] at h
    obtain ⟨⟨b, a⟩, hb, he⟩ := h
    cases he
    have := ih hb
    simp only [List.length_cons]
    omega

theorem length_fraction?_le {s places beyond : List Char}
    (h : fraction? s = some (places, beyond)) :
    beyond.length ≤ s.length := by
  unfold fraction? at h
  split at h
  · split at h
    · simp only [Option.some.injEq, Prod.mk.injEq] at h
      rename_i rest _
      have := length_dropWhile_le Digit.isDigit rest
      simp only [← h.2, List.length_cons]
      omega
    · simp at h
  · simp at h

theorem length_numberPiece_le (c : Char) (rest : List Char) :
    (numberPiece c rest).2.length ≤ rest.length := by
  have hAfter := length_dropWhile_le Digit.isDigit rest
  unfold numberPiece
  dsimp only
  split
  · rename_i h
    exact Nat.le_trans (length_fraction?_le h) hAfter
  · split <;> exact hAfter

/-- A piece takes at least one character, so scanning ends. -/
theorem length_piece_le (c : Char) (rest : List Char) :
    (piece c rest).2.length ≤ rest.length := by
  unfold piece
  split
  · exact Nat.le_refl _
  split
  · exact length_dropWhile_le _ rest
  split
  · exact length_dropWhile_le _ rest
  split
  · exact length_numberPiece_le c rest
  split
  · split
    · rename_i h
      exact Nat.le_of_lt (length_literalBody_lt h)
    · exact Nat.le_refl _
  · unfold markPiece
    split
    · simp only [List.length_drop]
      omega
    · exact Nat.le_refl _

/-- All pieces of a text, in order. -/
def pieces : List Char → List Piece
  | [] => []
  | c :: rest => (piece c rest).1 :: pieces (piece c rest).2
termination_by s => s.length
decreasing_by
  have := length_piece_le c rest
  simp only [List.length_cons]
  omega

/-- What the scanner hands on: tokens, and what it has to report between
them. -/
inductive Lexeme where
  | token (t : Token)
  | stray (c : Char) (line : Nat) (place : Cursor)
  | overlong (digits : Nat)
  deriving Repr, Inhabited

/-- The line the scanner counts. Line ends are skipped as blanks, and no rule
counts them. -/
def countedLine : Nat := 1

/-- The lexemes of some pieces, the first of which stands at `here`. Blanks and
comments leave none. -/
def locate (here : Cursor) : List Piece → List Lexeme
  | [] => []
  | p :: rest =>
    let following := locate (here.after p.text) rest
    match p with
    | .token kind value _ => .token ⟨kind, value, countedLine, here⟩ :: following
    | .stray c => .stray c countedLine here :: following
    | .overlong digits => .overlong digits.length :: following
    | .blank _ => following
    | .comment _ => following

/-- The lexemes of a source text. -/
def lexemes (source : String) : List Lexeme :=
  locate Cursor.start (pieces source.toList)

/-- The console line for a stray character. -/
def strayNotice (c : Char) (line : Nat) (place : Cursor) : String :=
  "Illegal character '" ++ String.ofList [c] ++ s!"' at line {line}, column {place.column}\n"

/-- The outcome of scanning a whole text: the tokens up to the first number
that is too long, and the console output. -/
structure Scan where
  tokens : List Token
  output : String
  fault : Option NumeralFault
  deriving Inhabited

/-- Collect lexemes up to the first fault. -/
def collect : List Lexeme → Scan
  | [] => ⟨[], "", none⟩
  | .token t :: rest => let s := collect rest; { s with tokens := t :: s.tokens }
  | .stray c line place :: rest =>
    let s := collect rest; { s with output := strayNotice c line place ++ s.output }
  | .overlong digits :: _ => ⟨[], "", some (.unreadable digits)⟩

def scan (source : String) : Scan :=
  collect (lexemes source)

end Lexer

end PageScript
