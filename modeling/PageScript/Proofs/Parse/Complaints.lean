import Mathlib.Data.List.DropRight
import PageScript.Proofs.Parse.Outcome
import PageScript.Proofs.Token.Layout

/-! Where complaints point. Line ends are skipped as blanks, so every token is
taken to stand on the first line, while its column is that in its own line.
Main statement: the complaint about a token has the line, the column and the
quoted line of the token exactly if no line ends before it, and it would always
have them if the lines were counted. -/
namespace PageScript

/-! ### Places in a text -/

namespace Lexer

/-- The line of the place behind so many characters, counted from one. -/
def lineNumber (text : List Char) (offset : Nat) : Nat :=
  (text.take offset).count '\n' + 1

/-- What stands before the place in its line. -/
def lineStart (text : List Char) (offset : Nat) : List Char :=
  (text.take offset).rtakeWhile (· != '\n')

/-- These are the line, the column and the whole line of the place behind so
many characters. A caret that is put below the quoted line at the column then
points to the character at the place. -/
structure Designates (text : List Char) (offset line column : Nat) (quoted : String) : Prop where
  line_eq : line = lineNumber text offset
  column_eq : column = (lineStart text offset).length + 1
  quoted_eq : quoted.toList = lineStart text offset ++ (text.drop offset).takeWhile (· != '\n')

end Lexer

theorem Cursor.offset_after_start (passed : List Char) :
    (Cursor.start.after passed).offset = passed.length := by
  rw [offset_after]
  exact Nat.zero_add _

theorem Cursor.after_concat (here : Cursor) (passed : List Char) (c : Char) :
    here.after (passed ++ [c]) = (here.after passed).step c :=
  List.foldl_concat _ _ _ _

/-- The column counts the characters behind the last line end. -/
theorem Cursor.column_after_start (passed : List Char) :
    (Cursor.start.after passed).column = (passed.rtakeWhile (· != '\n')).length + 1 := by
  induction passed using List.reverseRecOn with
  | nil => rfl
  | append_singleton passed c ih =>
      rw [after_concat, step, List.rtakeWhile_concat]
      by_cases hEnd : c = '\n'
      · simp [hEnd]
      · simp [hEnd, ih]

namespace Parse

theorem lineAt_newline (text : List Char) (n : Nat) :
    lineAt ('\n' :: text) (n + 1) = lineAt text n := rfl

/-- A character that ends no line does not change which line is meant, as long
as it is a later one. -/
theorem lineAt_cons {c : Char} (h : c ≠ '\n') (text : List Char) (n : Nat) :
    lineAt (c :: text) (n + 1) = lineAt text (n + 1) := by
  rw [lineAt, lineAt, List.dropWhile_cons_of_pos (by simpa using h)]

/-- As many line ends lead to the line behind the last of them. -/
theorem lineAt_behind (before text : List Char) :
    lineAt (before ++ '\n' :: text) (before.count '\n' + 1) = lineAt text 0 := by
  induction before with
  | nil => rfl
  | cons c rest ih =>
      by_cases hEnd : c = '\n'
      · rw [hEnd, List.count_cons_self, List.cons_append, lineAt_newline]
        exact ih
      · rw [List.count_cons_of_ne hEnd, List.cons_append, lineAt_cons hEnd]
        exact ih

/-- The line that goes on behind some characters has the number of the line
ends among them. -/
theorem lineAt_count (before after : List Char) :
    lineAt (before ++ after) (before.count '\n') =
      before.rtakeWhile (· != '\n') ++ after.takeWhile (· != '\n') := by
  induction before using List.reverseRecOn generalizing after with
  | nil => rfl
  | append_singleton before c ih =>
      rw [List.append_assoc, List.singleton_append, List.rtakeWhile_concat]
      by_cases hEnd : c = '\n'
      · subst hEnd
        rw [List.count_append]
        exact lineAt_behind before after
      · have hCount : (before ++ [c]).count '\n' = before.count '\n' := by simp [hEnd]
        rw [hCount, ih]
        simp [hEnd]

/-- With its line counted, the complaint about what stands behind some
characters points there. -/
theorem designates_lineAt (before after : List Char) {place : Cursor}
    (hPlace : place = Cursor.start.after before) :
    Lexer.Designates (before ++ after) place.offset
      (Lexer.lineNumber (before ++ after) place.offset) place.column
      (String.ofList (lineAt (before ++ after)
        (Lexer.lineNumber (before ++ after) place.offset - 1))) := by
  have hOffset : place.offset = before.length := by rw [hPlace, Cursor.offset_after_start]
  refine ⟨rfl, ?_, ?_⟩
  · rw [hPlace, Cursor.column_after_start, ← hPlace, hOffset, Lexer.lineStart, List.take_left]
  · rw [hOffset, String.toList_ofList, Lexer.lineNumber, Lexer.lineStart, List.take_left,
      List.drop_left]
    exact lineAt_count before after

end Parse

/-! ### Places of tokens -/

namespace Lexer

/-- The token is written where the characters before it lead to from here, and
it has the line that the scanner counts. -/
structure Situated (text : List Char) (here : Cursor) (t : Token) : Prop where
  line_eq : t.line = countedLine
  split : ∃ before lexeme rest, text = before ++ (lexeme ++ rest) ∧
    t.place = here.after before ∧
    Spelled t.content lexeme

/-- A token that is situated in a text is situated in the text with more in
front, if the cursor has passed this. -/
theorem Situated.behind {passed text : List Char} {here : Cursor} {t : Token}
    (h : Situated text (here.after passed) t) : Situated (passed ++ text) here t := by
  obtain ⟨hLine, before, lexeme, rest, rfl, hPlace, hSpelled⟩ := h
  refine ⟨hLine, passed ++ before, lexeme, rest, (List.append_assoc _ _ _).symm, ?_, hSpelled⟩
  rw [hPlace]
  exact List.foldl_append.symm

/-- Tokens of pieces in front of which one more piece is cut off. -/
theorem situated_cut {text left : List Char} {p : Piece} (hCut : Cut text p left) {here : Cursor}
    {ps : List Piece} (h : ∀ t ∈ (collect (locate (here.after p.text) ps)).tokens,
      Situated left (here.after p.text) t) :
    ∀ t ∈ (collect (locate here (p :: ps))).tokens, Situated text here t := by
  have hLater : ∀ t ∈ (collect (locate (here.after p.text) ps)).tokens,
      Situated text here t := by
    intro t ht
    rw [hCut.text_eq]
    exact (h t ht).behind
  cases hCut with
  | blank _ | comment _ _ | stray _ _ => exact hLater
  | token spelled _ _ =>
      exact List.forall_mem_cons.mpr ⟨⟨rfl, [], _, left, rfl, rfl, spelled⟩, hLater⟩
  | overlong _ _ => exact List.forall_mem_nil _

/-- All tokens of a text are situated in it, from wherever it is counted. The
recursion is the scanner's. -/
theorem situated_pieces (text : List Char) (here : Cursor) :
    ∀ t ∈ (collect (locate here (pieces text))).tokens, Situated text here t := by
  fun_induction pieces text generalizing here with
  | case1 => exact List.forall_mem_nil _
  | case2 c rest ih => exact situated_cut (cut_piece c rest) (ih _)

theorem situated_of_mem_scan {source : String} {t : Token} (h : t ∈ (scan source).tokens) :
    Situated source.toList Cursor.start t :=
  situated_pieces source.toList Cursor.start t h

theorem Situated.writtenAs {text : List Char} {t : Token} (h : Situated text Cursor.start t) :
    ∃ word, WrittenAs text t word := by
  obtain ⟨-, before, lexeme, rest, rfl, hPlace, hSpelled⟩ := h
  refine ⟨String.ofList lexeme, ?_, ?_⟩
  · rw [String.toList_ofList]
    exact hSpelled
  · rw [String.toList_ofList, hPlace, Cursor.offset_after_start, List.drop_left]
    exact List.prefix_append lexeme rest

/-- The line is right exactly on the first line. -/
theorem countedLine_eq_iff (text : List Char) (offset : Nat) :
    countedLine = lineNumber text offset ↔ '\n' ∉ text.take offset := by
  rw [← List.count_eq_zero, lineNumber, countedLine]
  omega

end Lexer

namespace Parse

open Lexer

section complaints

variable {policy : ElementPolicy} {source : String} {c : Config} {line column : Nat}
    {text quoted output : String}

/-- A rule that refuses is not complained about. -/
theorem reduce_ne_syntactic (rule : Rule) (fault : SyntaxFault) :
    reduce policy c rule ≠ .done ⟨.failed (.syntactic fault), output⟩ := by
  intro h
  unfold reduce at h
  dsimp only at h
  split at h
  · split at h <;> cases h
  · cases h
  · rename_i hSyntactic _
    cases h
    exact hSyntactic _ rfl

/-- A recovery that ends a parse with a complaint complains about the token at
hand. -/
theorem recover_eq_complaint {la : Lookahead}
    (h : recover source c la = .done ⟨.failed (.syntactic (.unexpected line column text quoted)),
      output⟩) :
    ∃ t, la = .token t ∧ unfitting source (.token t) =
      .syntactic (.unexpected line column text quoted) := by
  unfold recover at h
  split at h
  · cases la with
    | token t => exact ⟨t, rfl, Outcome.failed.inj (congrArg Parsed.outcome (Step.done.inj h))⟩
    | finish => cases h
    | refused => cases h
  · dsimp only at h
    split at h <;> cases h

/-- A complaint about an unexpected token is about the token that the parse
looks at. Neither a rule nor a fault of the scanner gives such a complaint. -/
theorem exists_look_of_complaint
    (h : step policy source c = .done ⟨.failed (.syntactic (.unexpected line column text quoted)),
      output⟩) :
    ∃ t looked, c.look = .ok (.token t, looked) ∧
      unfitting source (.token t) = .syntactic (.unexpected line column text quoted) := by
  cases hDefault : Automaton.default? (topState c.stack) with
  | some rule =>
      rw [step_of_default hDefault] at h
      exact absurd h (reduce_ne_syntactic rule _)
  | none =>
      cases hLook : c.look with
      | error parsed =>
          rw [step_of_look_error hDefault hLook] at h
          obtain ⟨cause, out, rfl⟩ := exists_numeral_of_look hLook
          cases h
      | ok seen =>
          obtain ⟨la, looked⟩ := seen
          rw [step_of_look_ok hDefault hLook, act] at h
          split at h
          · cases h
          · exact absurd h (reduce_ne_syntactic _ _)
          · split at h <;> cases h
          · obtain ⟨t, rfl, hUnfitting⟩ := recover_eq_complaint h
            exact ⟨t, looked, rfl, hUnfitting⟩

/-- A complaint in place of a tree is how the parse has failed. -/
theorem outcome_of_tree_syntactic {parsed : Parsed} {fault : SyntaxFault}
    (h : parsed.tree = .error (.syntactic fault)) :
    parsed.outcome = .failed (.syntactic fault) := by
  unfold Parsed.tree at h
  split at h
  · cases h
  · cases h
  · cases h
  · rename_i hOutcome
    cases h
    exact hOutcome
  · cases h

/-- The parse of a text that ends with a complaint about an unexpected token
ends where it looks at that token, and it is a token of the text. -/
theorem exists_token_of_complaint
    (h : (parse policy source).tree = .error (.syntactic (.unexpected line column text quoted))) :
    ∃ steps last t looked, Leads policy source (Config.start (lexemes source)) steps last ∧
      step policy source last = .done (parse policy source) ∧
        last.look = .ok (.token t, looked) ∧
      t ∈ (scan source).tokens ∧
      unfitting source (.token t) = .syntactic (.unexpected line column text quoted) := by
  obtain ⟨steps, last, parsed, -, hLeads, hDone, -, hParse⟩ :=
    exists_last_step policy source (lexemes source)
  have hOutcome := outcome_of_tree_syntactic h
  rw [parse, hParse] at hOutcome
  have hEnd := hDone
  rw [show parsed = ⟨parsed.outcome, parsed.output⟩ from rfl, hOutcome] at hEnd
  obtain ⟨t, looked, hLook, hUnfitting⟩ := exists_look_of_complaint hEnd
  have hStart : Grounded policy (· ∈ (scan source).tokens) (Config.start (lexemes source)) :=
    grounded_start fun t ht => ht
  obtain ⟨hLooked, hAhead⟩ := (hStart.leads hLeads).look hLook
  refine ⟨steps, last, t, looked, hLeads, ?_, hLook, hLooked.lookahead t hAhead, hUnfitting⟩
  rw [parse, hParse]
  exact hDone

/-- If the lines were counted, a complaint about any token would point to
it. -/
theorem designates_counted {t : Token} (ht : t ∈ (scan source).tokens) :
    ∃ line column text quoted,
      unfitting source (.token { t with line := lineNumber source.toList t.place.offset }) =
        .syntactic (.unexpected line column text quoted) ∧
      Designates source.toList t.place.offset line column quoted := by
  obtain ⟨-, before, lexeme, rest, hText, hPlace, -⟩ := situated_of_mem_scan ht
  have hPoints := designates_lineAt before (lexeme ++ rest) hPlace
  rw [← hText] at hPoints
  exact ⟨_, _, _, _, rfl, hPoints⟩

/-- As they are not, the line of a complaint is the first one, and the column
is right. The complaint points to its token exactly if that is on the first
line. -/
theorem designates_unfitting_iff {t : Token} (ht : t ∈ (scan source).tokens)
    (h : unfitting source (.token t) = .syntactic (.unexpected line column text quoted)) :
    line = 1 ∧ column = (lineStart source.toList t.place.offset).length + 1 ∧
      (Designates source.toList t.place.offset line column quoted ↔
        '\n' ∉ source.toList.take t.place.offset) := by
  have hLine : t.line = countedLine := (situated_of_mem_scan ht).line_eq
  obtain ⟨_, _, _, _, hCounted, hPoints⟩ := designates_counted ht
  cases h
  cases hCounted
  refine ⟨hLine, hPoints.column_eq, ?_⟩
  rw [← countedLine_eq_iff]
  constructor
  · intro hDesignates
    rw [← hLine]
    exact hDesignates.line_eq
  · intro hFirst
    rw [← hFirst, ← hLine] at hPoints
    exact hPoints

end complaints

/-- Every token stands where its place says. Its line is the right one exactly
if no line ends before it, and with the right line the complaint about it would
always point to it. Where a parse ends with a complaint about an unexpected
token, that is the token it looks at: the complaint has its column, but the
first line, and it points to the token exactly if no line ends before it. -/
theorem complaint_designates_iff (policy : ElementPolicy) (source : String) :
    (∀ t ∈ (scan source).tokens, (∃ word, WrittenAs source.toList t word) ∧
      (t.line = lineNumber source.toList t.place.offset ↔
        '\n' ∉ source.toList.take t.place.offset) ∧
      ∃ line column text quoted,
        unfitting source (.token { t with line := lineNumber source.toList t.place.offset }) =
          .syntactic (.unexpected line column text quoted) ∧
        Designates source.toList t.place.offset line column quoted) ∧
    ∀ line column text quoted,
      (parse policy source).tree = .error (.syntactic (.unexpected line column text quoted)) →
      ∃ steps last t looked, Leads policy source (Config.start (lexemes source)) steps last ∧
        step policy source last = .done (parse policy source) ∧
          last.look = .ok (.token t, looked) ∧
        t ∈ (scan source).tokens ∧ unfitting source (.token t) =
          .syntactic (.unexpected line column text quoted) ∧
        line = 1 ∧ column = (lineStart source.toList t.place.offset).length + 1 ∧
        (Designates source.toList t.place.offset line column quoted ↔
          '\n' ∉ source.toList.take t.place.offset) := by
  constructor
  · intro t ht
    have hSituated := situated_of_mem_scan ht
    refine ⟨hSituated.writtenAs, ?_, designates_counted ht⟩
    rw [hSituated.line_eq]
    exact countedLine_eq_iff _ _
  · intro line column text quoted hTree
    obtain ⟨steps, last, t, looked, hLeads, hDone, hLook, ht, hUnfitting⟩ :=
      exists_token_of_complaint hTree
    exact ⟨steps, last, t, looked, hLeads, hDone, hLook, ht, hUnfitting,
      designates_unfitting_iff ht hUnfitting⟩

/-- What a text without a tree is refused with, if that is a matter of
syntax. -/
def complaint? : Except Fault Node → Option SyntaxFault
  | .error (.syntactic fault) => some fault
  | _ => none

theorem eq_of_complaint? {tree : Except Fault Node} {fault : SyntaxFault}
    (h : complaint? tree = some fault) :
    tree = .error (.syntactic fault) := by
  unfold complaint? at h
  split at h
  · cases h
    rfl
  · cases h

/-- A parenthesis that closes nothing, with a line end behind it. -/
def firstLineText : String := "show )\\\\ // 2\nx\\\\"

/-- A complaint on the first line, with a comment behind the token, has the
line and the column of the token. -/
theorem complaint_first_line :
    (parse .refuse firstLineText).tree =
      .error (.syntactic (.unexpected 1 6 ")" "show )\\\\ // 2")) ∧
      ∃ t ∈ (scan firstLineText).tokens, t.place.offset = 5 ∧
        '\n' ∉ firstLineText.toList.take t.place.offset ∧
        Designates firstLineText.toList t.place.offset 1 6 "show )\\\\ // 2" := by
  have hTree : (parse .refuse firstLineText).tree =
      .error (.syntactic (.unexpected 1 6 ")" "show )\\\\ // 2")) :=
    eq_of_complaint? (by decide +kernel)
  have hColumns : ∀ t ∈ (scan firstLineText).tokens, t.place.column = 6 →
      t.place.offset = 5 := by decide +kernel
  refine ⟨hTree, ?_⟩
  obtain ⟨steps, last, t, looked, -, -, -, ht, hUnfitting, -, -, hIff⟩ :=
    (complaint_designates_iff .refuse firstLineText).2 _ _ _ _ hTree
  obtain ⟨-, hColumn, -⟩ := SyntaxFault.unexpected.inj (Fault.syntactic.inj hUnfitting)
  have hOffset := hColumns t ht hColumn
  have hFirst : '\n' ∉ firstLineText.toList.take t.place.offset := by
    rw [hOffset]
    decide
  exact ⟨t, ht, hOffset, hFirst, hIff.mpr hFirst⟩

/-- A parenthesis that closes nothing, behind a line end. -/
def secondLineText : String := "show 1\\\\\n)"

/-- The parenthesis stands on the second line, but the complaint is about the
first one, and quotes it. -/
theorem complaint_second_line :
    (parse .refuse secondLineText).tree = .error (.syntactic (.unexpected 1 1 ")" "show 1\\\\")) ∧
      (SyntaxFault.unexpected 1 1 ")" "show 1\\\\").message =
        "Syntax error at line 1, column 1: Unexpected token ')'\n    show 1\\\\\n    ^" ∧
      (scan secondLineText).tokens.map (fun t => (t.kind, t.line, t.place.offset)) =
        [(.showWord, 1, 0), (.integer, 1, 5), (.terminator, 1, 6), (.closeParen, 1, 9)] ∧
      ¬ Designates secondLineText.toList 9 1 1 "show 1\\\\" ∧
        Designates secondLineText.toList 9 2 1 ")" := by
  refine ⟨eq_of_complaint? (by decide +kernel), by decide +kernel, by decide +kernel,
    fun hPoints => ?_, ?_⟩
  · exact absurd hPoints.line_eq (by decide)
  · exact ⟨by decide, by decide, by decide⟩

end Parse

end PageScript
