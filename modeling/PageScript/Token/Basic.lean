import PageScript.Value.Basic

/-! Tokens of the script language: their kinds, the reserved words and the
marks. -/
namespace PageScript

/-- The kinds of tokens, and the end of the input. -/
inductive Terminal where
  | define | function | async | returnWord | ifWord | elseWord | whileWord | forWord
  | tryWord | catchWord | finallyWord | throwWord
  | showWord | save | delete | const | classWord
  | connect | asWord | db | query | transaction | commit | rollback
  | derivePublicKey | generateKey | qubit | apply | measure
  | encrypt | decrypt | sign | verify
  | inWord | toWord | onWord | size | fromWord | data | withWord | key | algorithm | signature
  | await
  /-- The name of a primitive type, and the word `type`. -/
  | typeWord
  | identifier | integer | decimal | text | boolean
  | or | terminator | plusEquals | plus | times | lessEqual | greaterEqual | same | differs
  | dot | and | hash | openParen | closeParen
  | minus | divide | equals | less | greater | colon | comma | not
  | endOfInput
  deriving Repr, DecidableEq, Inhabited

namespace Terminal

/-- The words that are not identifiers. -/
def reserved : List (String × Terminal) :=
  [("define", define), ("function", function), ("async", async), ("return", returnWord),
    ("if", ifWord), ("else", elseWord), ("while", whileWord), ("for", forWord),
    ("try", tryWord), ("catch", catchWord), ("finally", finallyWord), ("throw", throwWord),
    ("int", typeWord), ("float", typeWord), ("string", typeWord), ("bool", typeWord),
    ("void", typeWord),
    ("show", showWord), ("save", save), ("delete", delete), ("true", boolean), ("false", boolean),
    ("const", const), ("class", classWord), ("connect", connect), ("as", asWord), ("db", db),
    ("query", query), ("transaction", transaction), ("commit", commit), ("rollback", rollback),
    ("derive_public_key", derivePublicKey), ("generate_key", generateKey), ("qubit", qubit),
    ("apply", apply), ("measure", measure), ("encrypt", encrypt), ("decrypt", decrypt),
    ("sign", sign),
    ("verify", verify), ("in", inWord), ("to", toWord), ("on", onWord), ("size", size),
    ("from", fromWord),
    ("data", data), ("with", withWord), ("key", key), ("algorithm", algorithm),
    ("signature", signature), ("await", await), ("type", typeWord)]

/-- The marks, in the order in which they are tried: a mark stands before every
mark that begins it. -/
def marks : List (String × Terminal) :=
  [("||", or), ("\\\\", terminator), ("+=", plusEquals), ("+", plus), ("*", times),
    ("<=", lessEqual), (">=", greaterEqual), ("==", same), ("!=", differs), (".", dot), ("&&", and),
    ("#", hash), ("(", openParen), (")", closeParen), ("-", minus), ("/", divide), ("=", equals),
    ("<", less), (">", greater), (":", colon), (",", comma), ("!", not)]

end Terminal

/-- A place in a source text: how many characters stand before it, and its
column in its line, counted from one. -/
structure Cursor where
  offset : Nat
  column : Nat
  deriving Repr, DecidableEq, Inhabited

namespace Cursor

def start : Cursor := ⟨0, 1⟩

/-- The place after one more character. -/
def step (here : Cursor) (c : Char) : Cursor :=
  if c = '\n' then ⟨here.offset + 1, 1⟩ else ⟨here.offset + 1, here.column + 1⟩

/-- The place after a run of characters. -/
def after (here : Cursor) (passed : List Char) : Cursor :=
  passed.foldl step here

end Cursor

/-- A token with its value and its place. The line is the one the scanner
counts. -/
structure Token where
  kind : Terminal
  value : Value
  line : Nat
  place : Cursor
  deriving Repr, Inhabited

end PageScript
