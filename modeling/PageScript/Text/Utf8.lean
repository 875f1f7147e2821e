import PageScript.Text.Hex

/-! Bytes and texts. Reading bytes as UTF-8 finds the first place where they
are no text; showing bytes writes such places in hexadecimal. -/
namespace PageScript

abbrev Bytes := List UInt8

namespace Utf8

/-- The bytes of a text. -/
def encode (s : String) : Bytes :=
  s.toList.flatMap String.utf8EncodeChar

/-- Why bytes are not a text. -/
inductive Reason where
  | invalidStart
  | invalidContinuation
  | unexpectedEnd
  deriving Repr, DecidableEq

def Reason.message : Reason → String
  | .invalidStart => "invalid start byte"
  | .invalidContinuation => "invalid continuation byte"
  | .unexpectedEnd => "unexpected end of data"

/-- Reading at one place: a character and its width, or how many bytes are no
part of any character. -/
inductive Reading where
  | char (c : Char) (width : Nat)
  | bad (reason : Reason) (width : Nat)
  deriving Repr, DecidableEq

def isContinuation (b : UInt8) : Bool :=
  decide (0x80 ≤ b.toNat) && decide (b.toNat < 0xc0)

/-- Whether `second` can follow the leading byte `lead`. Overlong forms,
surrogates and numbers beyond all characters are cut off here. -/
def canFollow (lead second : UInt8) : Bool :=
  isContinuation second &&
    (if lead = 0xe0 then decide (0xa0 ≤ second.toNat)
    else if lead = 0xed then decide (second.toNat < 0xa0)
    else if lead = 0xf0 then decide (0x90 ≤ second.toNat)
    else if lead = 0xf4 then decide (second.toNat < 0x90)
    else true)

/-- The low six bits of a continuation byte. -/
def low (b : UInt8) : Nat := b.toNat % 64

/-- Read one character that begins with `lead`. -/
def read (lead : UInt8) (rest : Bytes) : Reading :=
  let n := lead.toNat
  if n < 0x80 then .char (Char.ofNat n) 1
  else if n < 0xc2 then .bad .invalidStart 1
  else if n < 0xe0 then
    match rest with
    | [] => .bad .unexpectedEnd 1
    | b :: _ =>
      if isContinuation b then .char (Char.ofNat (n % 32 * 64 + low b)) 2
      else .bad .invalidContinuation 1
  else if n < 0xf0 then
    match rest with
    | [] => .bad .unexpectedEnd 1
    | b :: more =>
      if !canFollow lead b then .bad .invalidContinuation 1
      else match more with
        | [] => .bad .unexpectedEnd 2
        | c :: _ =>
          if isContinuation c then .char (Char.ofNat ((n % 16 * 64 + low b) * 64 + low c)) 3
          else .bad .invalidContinuation 2
  else if n < 0xf5 then
    match rest with
    | [] => .bad .unexpectedEnd 1
    | b :: more =>
      if !canFollow lead b then .bad .invalidContinuation 1
      else match more with
        | [] => .bad .unexpectedEnd 2
        | c :: more =>
          if !isContinuation c then .bad .invalidContinuation 2
          else match more with
            | [] => .bad .unexpectedEnd 3
            | d :: _ =>
              if isContinuation d then
                .char (Char.ofNat (((n % 8 * 64 + low b) * 64 + low c) * 64 + low d)) 4
              else .bad .invalidContinuation 3
  else .bad .invalidStart 1

/-- The first bytes that are no text: the byte itself, where they begin, how
many they are, and why. -/
structure Fault where
  byte : UInt8
  position : Nat
  width : Nat
  reason : Reason
  deriving Repr, DecidableEq

/-- A byte as two hexadecimal digits. -/
def hex (b : UInt8) : String :=
  String.ofList (Hex.digits 2 b.toNat)

def Fault.message (f : Fault) : String :=
  if f.width = 1 then
    s!"'utf-8' codec can't decode byte 0x{hex f.byte} in position {f.position}: {f.reason.message}"
  else
    s!"'utf-8' codec can't decode bytes in position {f.position}-{f.position + f.width - 1}: {f.reason.message}"

/-- Read all bytes as a text; `position` bytes were read before. -/
def decodeFrom (position : Nat) : Bytes → Except Fault (List Char)
  | [] => .ok []
  | lead :: rest =>
    match read lead rest with
    | .bad reason width => .error ⟨lead, position, width, reason⟩
    | .char c width => (decodeFrom (position + width) (rest.drop (width - 1))).map (c :: ·)
termination_by bytes => bytes.length
decreasing_by
  simp only [List.length_drop, List.length_cons]
  omega

def decode (bytes : Bytes) : Except Fault String :=
  (decodeFrom 0 bytes).map String.ofList

/-- All bytes as characters, those that are no part of a character in
hexadecimal. -/
def displayChars : Bytes → List Char
  | [] => []
  | lead :: rest =>
    match read lead rest with
    | .char c width => c :: displayChars (rest.drop (width - 1))
    | .bad _ _ => '\\' :: 'x' :: (hex lead).toList ++ displayChars rest
termination_by bytes => bytes.length
decreasing_by
  all_goals simp only [List.length_drop, List.length_cons]
  all_goals omega

/-- Bytes as a text, those that are no part of a character in hexadecimal. -/
def display (bytes : Bytes) : String :=
  String.ofList (displayChars bytes)

end Utf8

/-- A text with every line end, of whichever kind, written as a line feed. -/
def unifyLineEnds : List Char → List Char
  | [] => []
  | '\r' :: '\n' :: rest => '\n' :: unifyLineEnds rest
  | '\r' :: rest => '\n' :: unifyLineEnds rest
  | c :: rest => c :: unifyLineEnds rest

end PageScript
