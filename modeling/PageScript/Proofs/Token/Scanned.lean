import PageScript.Proofs.Grammar.Shape
import PageScript.Proofs.Token.Spelling

/-! The tokens that the scanner makes carry values of their kinds, and the end
of the input is never among them. -/
namespace PageScript

/-- A value that the scanner gives to tokens of a kind. -/
structure Terminal.Carries (kind : Terminal) (value : Value) : Prop where
  fits : (GrammarSymbol.t kind).shape.Fits (.leaf value)
  ne_endOfInput : kind ≠ .endOfInput

/-- A token as the scanner makes them. -/
def Token.Scanned (t : Token) : Prop := t.kind.Carries t.value

namespace Lexer

/-- The kinds of the reserved words and marks other than truth values. -/
def isPlain (kind : Terminal) : Bool :=
  decide ((GrammarSymbol.t kind).shape = .word) && decide (kind ≠ .endOfInput)

/-- A plain kind of token can carry any text. -/
theorem carries_text {kind : Terminal} (h : isPlain kind = true) (s : String) :
    kind.Carries (.text s) := by
  rw [isPlain, Bool.and_eq_true, decide_eq_true_eq, decide_eq_true_eq] at h
  refine ⟨?_, h.2⟩
  rw [h.1]
  exact .word s

/-- The reserved words other than truth values are plain kinds of token. -/
theorem isPlain_of_mem_reserved {entry : String × Terminal} (h : entry ∈ Terminal.reserved)
    (hKind : entry.2 ≠ .boolean) : isPlain entry.2 = true := by
  have hAll : Terminal.reserved.all (fun entry => entry.2 == .boolean || isPlain entry.2) =
      true := by
    decide
  have hEntry := List.all_eq_true.mp hAll entry h
  simpa [hKind] using hEntry

theorem isPlain_of_mem_marks {mark : String × Terminal} (h : mark ∈ Terminal.marks) :
    isPlain mark.2 = true := by
  have hAll : Terminal.marks.all (fun entry => isPlain entry.2) = true := by decide
  exact List.all_eq_true.mp hAll mark h

/-- What a token reads is a value that its kind can carry. -/
theorem Reads.carries {kind : Terminal} {value : Value} (h : Reads kind value) :
    kind.Carries value := by
  cases h with
  | truth b => exact ⟨.truth b, by decide⟩
  | reserved listed plain => exact carries_text (isPlain_of_mem_reserved listed plain) _
  | identifier named => exact carries_text (by decide) _
  | decimal x => exact ⟨.decimal x, by decide⟩
  | integer => exact ⟨.integer _, by decide⟩
  | text => exact carries_text (by decide) _
  | mark listed => exact carries_text (isPlain_of_mem_marks listed) _

/-- Every token of a source text carries a value of its kind. -/
theorem scanned_of_mem_scan {source : String} {t : Token} (h : t ∈ (scan source).tokens) :
    t.Scanned :=
  (reads_of_mem_scan h).carries

end Lexer

end PageScript
