import Mathlib.Data.List.Forall2
import PageScript.Proofs.Token.Lossless

/-! Layout does not matter. Each lexeme of a text is a spelling of its token,
and a spelling is read the same way wherever it stands, as long as a blank sets
it off. Main statement: the lexemes of a text, joined by single blanks, are
scanned to the same tokens without a notice, so texts with the same lexemes
have the same tokens. -/
namespace PageScript

/-- The characters of a piece that is a token. -/
def Piece.lexeme? : Piece → Option String
  | .token _ _ lexeme => some (String.ofList lexeme)
  | _ => none

namespace Lexer

/-- The lexemes of the tokens of a text, in order. -/
def spellings (source : String) : List String :=
  (pieces source.toList).filterMap Piece.lexeme?

/-- The lexemes of a text, joined by single blanks. -/
def respaced (source : String) : String :=
  " ".intercalate (spellings source)

/-! ### The lexemes of a text -/

/-- The token is written with these characters, which stand at its place in the
text. -/
structure WrittenAs (text : List Char) (t : Token) (word : String) : Prop where
  spelled : Spelled t.content word.toList
  placed : word.toList <+: text.drop t.place.offset

/-- One more piece in front of pieces whose tokens have their lexemes. -/
theorem writtenAs_cut {before text left : List Char} {p : Piece} (hCut : Cut text p left)
    (hRuns : HasShortRuns text) {here : Cursor} (hHere : here.offset = before.length)
    {ps : List Piece}
    (h :
      List.Forall₂ (WrittenAs (before ++ text)) (collect (locate (here.after p.text) ps)).tokens
      (ps.filterMap Piece.lexeme?)) :
    List.Forall₂ (WrittenAs (before ++ text)) (collect (locate here (p :: ps))).tokens
      ((p :: ps).filterMap Piece.lexeme?) := by
  cases hCut with
  | blank _ | comment _ _ | stray _ _ => exact h
  | @token kind value lexeme _ spelled _ _ =>
      refine .cons ⟨?_, ?_⟩ h
      · rw [String.toList_ofList]
        exact spelled
      · rw [String.toList_ofList, hHere, List.drop_left]
        exact List.prefix_append lexeme left
  | @overlong digits _ run long =>
      have hShort := hRuns digits (List.prefix_append digits left).isInfix run.all
      exact absurd long (Nat.not_lt.mpr hShort)

/-- The tokens of a text are written as its lexemes, each at its own place. The
recursion is the scanner's, and the cursor counts the characters before it. -/
theorem writtenAs_pieces (text : List Char) (hRuns : HasShortRuns text) (before : List Char)
    (here : Cursor) (hHere : here.offset = before.length) :
    List.Forall₂ (WrittenAs (before ++ text)) (collect (locate here (pieces text))).tokens
      ((pieces text).filterMap Piece.lexeme?) := by
  fun_induction pieces text generalizing before here with
  | case1 => exact .nil
  | case2 c rest ih =>
      have hCut := cut_piece c rest
      have hText := hCut.text_eq
      have hLeft : HasShortRuns (piece c rest).2 := by
        rw [hText] at hRuns
        exact hRuns.of_append
      have hOthers := ih hLeft (before ++ (piece c rest).1.text) (here.after (piece c rest).1.text)
        (by rw [Cursor.offset_after, hHere, List.length_append])
      rw [List.append_assoc, ← hText] at hOthers
      exact writtenAs_cut hCut hRuns hHere hOthers

/-- Every token of a text has its lexeme, at its place. -/
theorem writtenAs_spellings (source : String) (hRuns : HasShortRuns source.toList) :
    List.Forall₂ (WrittenAs source.toList) (scan source).tokens (spellings source) :=
  writtenAs_pieces source.toList hRuns [] Cursor.start rfl

/-! ### Lexemes joined by blanks -/

theorem detached_nil : Detached [] :=
  detached_of_stops stops_nil stops_nil rfl stops_nil

/-- Spellings that are joined by blanks are laid out. -/
theorem laid_intercalate {tokens : List Token} {words : List String}
    (h : List.Forall₂ (fun t word => Spelled t.content word.toList) tokens words) :
    Laid (tokens.map Token.content) (" ".intercalate words).toList := by
  induction h with
  | nil =>
      rw [String.intercalate_nil]
      exact .nil
  | @cons t word tokens words first others ih =>
      cases others with
      | nil =>
          rw [String.intercalate_singleton, ← List.append_nil word.toList]
          exact .cons first (detached_nil _) .nil
      | cons second more =>
          rw [String.intercalate_cons_cons, String.append_assoc, String.toList_append,
            String.toList_append]
          exact .spaced first ih

/-- Nothing is reported about tokens that are laid out. -/
theorem output_of_laid {tokens : List (Terminal × Value)} {source : List Char}
    (h : Laid tokens source) (here : Cursor) :
    (collect (locate here (pieces source))).output = "" := by
  induction h generalizing here with
  | nil =>
      rw [pieces]
      rfl
  | @blank tokens c source hBlank _ ih =>
      have hPiece : piece c source = (.blank c, source) := by rw [piece, if_pos hBlank]
      rw [pieces, hPiece]
      exact ih _
  | @cons token tokens spelling source first apart _ ih =>
      obtain ⟨c, more, rfl, hPiece⟩ := piece_of_spelled first apart
      rw [List.cons_append, pieces, hPiece]
      exact ih _

theorem laid_respaced (source : String) (hRuns : HasShortRuns source.toList) :
    Laid ((scan source).tokens.map Token.content) (respaced source).toList :=
  laid_intercalate ((writtenAs_spellings source hRuns).imp fun _ _ hWritten => hWritten.spelled)

theorem content_respaced (source : String) (hRuns : HasShortRuns source.toList) :
    (scan (respaced source)).tokens.map Token.content = (scan source).tokens.map Token.content :=
  (collect_of_laid (laid_respaced source hRuns) Cursor.start).1

/-- In a text without overlong runs of digits, every token has its lexeme at
its place. These lexemes, joined by single blanks, are scanned to tokens of the
same kinds and values in the same order, and nothing is reported about them. So
any other such text with the same lexemes has the same tokens, whatever stands
between them in either text. -/
theorem scan_respaced (source : String) (hRuns : HasShortRuns source.toList) :
    List.Forall₂ (WrittenAs source.toList) (scan source).tokens (spellings source) ∧
      (scan (respaced source)).tokens.map Token.content = (scan source).tokens.map Token.content ∧
      (scan (respaced source)).output = "" ∧ (scan (respaced source)).fault = none ∧
      ∀ other : String, HasShortRuns other.toList → spellings other = spellings source →
        (scan other).tokens.map Token.content = (scan source).tokens.map Token.content := by
  have hLaid := laid_respaced source hRuns
  have hContent := content_respaced source hRuns
  refine ⟨writtenAs_spellings source hRuns, hContent, output_of_laid hLaid _,
    (collect_of_laid hLaid _).2, ?_⟩
  intro other hOther hSame
  have hJoined : respaced other = respaced source := by rw [respaced, hSame, respaced]
  rw [← content_respaced other hOther, hJoined, hContent]

/-- Tokens without a blank between them, and a character that begins none. -/
def crowdedText : String := "total+=1.5/x@\"a b\"//end"

/-- The same tokens, broken into lines. -/
def airyText : String := "total\n += 1.5 / // halves\r\n\tx \"a b\" "

/-- A crowded text with a stray character, and an airy one with the same
lexemes. -/
theorem scan_respaced_crowdedText :
    HasShortRuns crowdedText.toList ∧ HasShortRuns airyText.toList ∧
      spellings crowdedText = ["total", "+=", "1.5", "/", "x", "\"a b\""] ∧
      (scan crowdedText).output ≠ "" ∧ (scan (respaced crowdedText)).output = "" ∧
      (scan (respaced crowdedText)).tokens.map Token.content =
        (scan crowdedText).tokens.map Token.content ∧
      (scan airyText).tokens.map Token.content = (scan crowdedText).tokens.map Token.content := by
  have hCrowded : HasShortRuns crowdedText.toList := hasShortRuns_of_length (by decide)
  have hAiry : HasShortRuns airyText.toList := hasShortRuns_of_length (by decide)
  obtain ⟨-, hContent, hSilent, -, hOthers⟩ := scan_respaced crowdedText hCrowded
  have hSame : spellings airyText = spellings crowdedText := by decide +kernel
  exact ⟨hCrowded, hAiry, by decide +kernel, by decide +kernel, hSilent, hContent,
    hOthers airyText hAiry hSame⟩

end Lexer

end PageScript
