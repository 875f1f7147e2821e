import PageScript.Text.Utf8

/-! Tokens of the markup language, cut from bytes. Between tokens only blanks
may stand. -/
namespace PageScript.Markup

/-- The kinds of markup tokens. -/
inductive Kind where
  | hash | closingHash | comma | colon | equals | terminator
  | showWord | define | identifier | text
  | finish
  deriving Repr, DecidableEq, Inhabited

/-- A token. The text of a literal has its escapes removed; the position is
that of the first byte, as far as 32 bits with a sign can hold it. -/
structure Token where
  kind : Kind
  text : Bytes
  position : Int32
  deriving Repr, DecidableEq, Inhabited

/-- What the parser was looking for. -/
inductive Expectation where
  | hash | tag | closingHash | closingTag
  | attributeKey | attributeColon | attributeText
  | shownText | showEnd
  | definedName | defineEquals | defineEnd
  deriving Repr, DecidableEq

def Expectation.message : Expectation → String
  | .hash => "Expected '#'"
  | .tag => "Expected identifier after '#'"
  | .closingHash => "Expected '\\#'"
  | .closingTag => "Expected identifier after '\\#'"
  | .attributeKey => "Expected identifier in attribute"
  | .attributeColon => "Expected ':' in attribute"
  | .attributeText => "Expected string literal in attribute"
  | .shownText => "Expected string literal after 'show'"
  | .showEnd => "Expected '\\\\' after show statement"
  | .definedName => "Expected identifier after 'define'"
  | .defineEquals => "Expected '=' in define statement"
  | .defineEnd => "Expected '\\\\' after define statement"

/-- Why a document cannot be read. -/
inductive Fault where
  | unexpectedByte (byte : UInt8) (position : Nat)
  | unterminated (position : Nat)
  | expected (what : Expectation) (position : Int32)
  | mismatched (closing opening : Bytes)
  | unexpectedToken (text : Bytes)
  | expectedValue
  /-- The parser ran past its tokens. -/
  | exhausted
  deriving Repr, DecidableEq

/-- The bytes of the message in full. -/
def Fault.text : Fault → Bytes
  | .unexpectedByte byte position =>
    Utf8.encode "Unexpected char '" ++ [byte] ++ Utf8.encode s!"' at position {position}"
  | .unterminated position => Utf8.encode s!"Unterminated string at position {position}"
  | .expected what position => Utf8.encode s!"{what.message} at position {position}"
  | .mismatched closing opening =>
    Utf8.encode "Mismatched closing tag: " ++ closing ++ Utf8.encode " != " ++ opening
  | .unexpectedToken text =>
    Utf8.encode "Unexpected token '" ++ text ++ Utf8.encode "' in content item."
  | .expectedValue => Utf8.encode "Expected IDENTIFIER or STRING_LITERAL in define statement."
  | .exhausted => Utf8.encode "Unexpected end of tokens"

/-- The message, which ends at the first zero byte. -/
def Fault.message (f : Fault) : Bytes :=
  f.text.takeWhile (· != 0)

namespace Lexer

/-- Space, tab, line feed, vertical tab, form feed and carriage return. -/
def isBlank (b : UInt8) : Bool :=
  b == 0x20 || (decide (0x09 ≤ b.toNat) && decide (b.toNat ≤ 0x0d))

def isLetter (b : UInt8) : Bool :=
  (decide (0x41 ≤ b.toNat) && decide (b.toNat ≤ 0x5a)) ||
    (decide (0x61 ≤ b.toNat) && decide (b.toNat ≤ 0x7a))

def isNameStart (b : UInt8) : Bool :=
  isLetter b || b == 0x5f

def isNamePart (b : UInt8) : Bool :=
  isLetter b || (decide (0x30 ≤ b.toNat) && decide (b.toNat ≤ 0x39)) || b == 0x5f

/-- The bytes of `show`. -/
def showSpelling : Bytes := [0x73, 0x68, 0x6f, 0x77]

/-- The bytes of `define`. -/
def defineSpelling : Bytes := [0x64, 0x65, 0x66, 0x69, 0x6e, 0x65]

/-- The kind of a word. -/
def wordKind (word : Bytes) : Kind :=
  if word = showSpelling then .showWord else if word = defineSpelling then .define else .identifier

/-- The value of a literal whose opening quote has been read, how many bytes it
takes with its closing quote, and what follows. A backslash drops out and keeps
the byte after it. -/
def literal : Bytes → Option (Bytes × Nat × Bytes)
  | [] => none
  | 0x22 :: rest => some ([], 1, rest)
  | [0x5c] => none
  | 0x5c :: b :: rest =>
    (literal rest).map fun (value, width, after) => (b :: value, width + 2, after)
  | b :: rest => (literal rest).map fun (value, width, after) => (b :: value, width + 1, after)

/-- What one step cuts off: a token or a blank, how many bytes it takes, and
what follows. -/
structure Cut where
  token : Option (Kind × Bytes)
  width : Nat
  rest : Bytes
  deriving Repr, DecidableEq

/-- The token of a single byte. -/
def mark? (b : UInt8) : Option Kind :=
  if b = 0x23 then some .hash
  else if b = 0x2c then some .comma
  else if b = 0x3a then some .colon
  else if b = 0x3d then some .equals
  else none

/-- Cut off what begins with `b`, at this position. -/
def cut (position : Nat) (b : UInt8) (rest : Bytes) : Except Fault Cut :=
  if isBlank b then .ok ⟨none, 1, rest⟩
  else if b == 0x5c && rest.head? ==
    some 0x5c then .ok ⟨some (.terminator, [0x5c, 0x5c]), 2, rest.drop 1⟩
  else if b == 0x5c && rest.head? ==
    some 0x23 then .ok ⟨some (.closingHash, [0x5c, 0x23]), 2, rest.drop 1⟩
  else match mark? b with
    | some kind => .ok ⟨some (kind, [b]), 1, rest⟩
    | none =>
      if b == 0x22 then
        match literal rest with
        | some (value, width, after) => .ok ⟨some (.text, value), width + 1, after⟩
        | none => .error (.unterminated (position + 1 + rest.length))
      else if isNameStart b then
        let word := b :: rest.takeWhile isNamePart
        .ok ⟨some (wordKind word, word), word.length, rest.dropWhile isNamePart⟩
      else .error (.unexpectedByte b position)

theorem length_dropWhile_le (p : UInt8 → Bool) (xs : Bytes) :
    (xs.dropWhile p).length ≤ xs.length := by
  induction xs with
  | nil => simp
  | cons x rest ih =>
    rw [List.dropWhile_cons]
    split
    · exact Nat.le_succ_of_le ih
    · exact Nat.le_refl _

theorem length_literal_lt {s value after : Bytes} {width : Nat}
    (h : literal s = some (value, width, after)) :
    after.length < s.length := by
  fun_induction literal s generalizing value width after with
  | case1 => simp at h
  | case2 rest => simp at h; simp [h.2.2]
  | case3 => simp at h
  | case4 b rest ih =>
    simp only [Option.map_eq_some_iff] at h
    obtain ⟨⟨v, w, a⟩, hl, he⟩ := h
    cases he
    have := ih hl
    simp only [List.length_cons]
    omega
  | case5 b rest _ _ _ ih =>
    simp only [Option.map_eq_some_iff] at h
    obtain ⟨⟨v, w, a⟩, hl, he⟩ := h
    cases he
    have := ih hl
    simp only [List.length_cons]
    omega

/-- Every cut takes at least one byte, so cutting ends. -/
theorem length_cut_le {position : Nat} {b : UInt8} {rest : Bytes} {c : Cut}
    (h : cut position b rest = .ok c) :
    c.rest.length ≤ rest.length := by
  unfold cut at h
  split at h
  · cases h; exact Nat.le_refl _
  split at h
  · cases h; simp
  split at h
  · cases h; simp
  split at h
  · cases h; exact Nat.le_refl _
  split at h
  · split at h
    · rename_i hl
      cases h
      exact Nat.le_of_lt (length_literal_lt hl)
    · cases h
  split at h
  · cases h; exact length_dropWhile_le _ rest
  · cases h

/-- The tokens of some bytes, the first of which stands at `position`. The last
token is the end. -/
def tokensFrom (position : Nat) : Bytes → Except Fault (List Token)
  | [] => .ok [⟨.finish, Utf8.encode "<EOF>", .ofNat position⟩]
  | b :: rest =>
    match _h : cut position b rest with
    | .error fault => .error fault
    | .ok c =>
      match tokensFrom (position + c.width) c.rest with
      | .error fault => .error fault
      | .ok following =>
        match c.token with
        | some (kind, text) => .ok (⟨kind, text, .ofNat position⟩ :: following)
        | none => .ok following
termination_by bytes => bytes.length
decreasing_by
  have := length_cut_le _h
  simp only [List.length_cons]
  omega

def tokens (source : Bytes) : Except Fault (List Token) :=
  tokensFrom 0 source

end Lexer

end PageScript.Markup
