import PageScript.Proofs.Markup.Lossless
import PageScript.Proofs.Token.Lossless

/-! Literals of scripts, read as markup. A script reads characters and a
document reads bytes, but only a quote and a backslash mean anything to either
inside a literal, and these are single bytes. Main statement: where a script
reads a literal, a document reads the same one, and where a script reads none,
a document reads none or one that goes over a line end. -/
namespace PageScript.Lexer

open Markup (LiteralBody)

section bodies

variable {bytes rest body value after : Bytes}

/-- A literal that goes on with a backslash goes on behind the byte it
guards. -/
theorem body_of_escaped {b : UInt8} (hBody : LiteralBody body value)
    (h : 0x5c :: b :: rest = body ++ 0x22 :: after) :
    ∃ inner less, body = 0x5c :: b :: inner ∧ LiteralBody inner less ∧
      rest = inner ++ 0x22 :: after := by
  cases hBody with
  | nil => cases h
  | plain _ hBackslash _ =>
      rw [List.cons_append, List.cons.injEq] at h
      exact absurd h.1.symm hBackslash
  | @escaped inner less c hInner =>
      simp only [List.cons_append, List.cons.injEq, true_and] at h
      obtain ⟨rfl, rfl⟩ := h
      exact ⟨inner, less, rfl, hInner, rfl⟩

/-- A literal goes on behind bytes that mean nothing in it. -/
theorem body_of_plain (hBytes : ∀ b ∈ bytes, b ≠ 0x22 ∧ b ≠ 0x5c)
    (hBody : LiteralBody body value) (h : bytes ++ rest = body ++ 0x22 :: after) :
    ∃ inner less, body = bytes ++ inner ∧ LiteralBody inner less ∧
      rest = inner ++ 0x22 :: after := by
  induction bytes generalizing body value with
  | nil => exact ⟨body, value, rfl, hBody, h⟩
  | cons b bytes ih =>
      obtain ⟨⟨hQuote, hBackslash⟩, hOthers⟩ := List.forall_mem_cons.mp hBytes
      cases hBody with
      | nil =>
          rw [List.cons_append, List.nil_append, List.cons.injEq] at h
          exact absurd h.1 hQuote
      | plain _ _ hInner =>
          rw [List.cons_append, List.cons_append, List.cons.injEq] at h
          obtain ⟨rfl, hRest⟩ := h
          obtain ⟨inner, less, rfl, hLess, rfl⟩ := ih hOthers hInner hRest
          exact ⟨inner, less, rfl, hLess, rfl⟩
      | escaped =>
          rw [List.cons_append, List.cons_append, List.cons.injEq] at h
          exact absurd h.1 hBackslash

end bodies

/-- Where a script finds no closing quote, a document finds it behind a line
end if at all. The cases are those of the script's reading, so the line end is
met where that reading gives up. -/
theorem newline_mem_of_literalBody {text : List Char} (h : literalBody text = none)
    {body value after : Bytes} (hBody : LiteralBody body value)
    (hBytes : text.flatMap String.utf8EncodeChar = body ++ 0x22 :: after) :
    0x0a ∈ body := by
  have hBackslash : String.utf8EncodeChar '\\' = [0x5c] := by decide
  have hLine : String.utf8EncodeChar '\n' = [0x0a] := by decide
  fun_induction literalBody text generalizing body value with
  | case1 => simp at hBytes
  | case2 => cases h
  | case3 rest =>
      rw [List.flatMap_cons, List.flatMap_cons, hBackslash, hLine] at hBytes
      obtain ⟨inner, -, rfl, -⟩ := body_of_escaped hBody hBytes
      exact .tail _ (.head _)
  | case4 c rest _ ih =>
      obtain ⟨lead, more, hChar, -, hMore⟩ := Utf8.utf8EncodeChar_cases c
      rw [List.flatMap_cons, List.flatMap_cons, hBackslash, hChar] at hBytes
      obtain ⟨guarded, _, rfl, hGuarded, hRest⟩ := body_of_escaped hBody hBytes
      obtain ⟨inner, _, rfl, hInner, hLast⟩ :=
        body_of_plain (fun b hb => Run.ne_of_continues (hMore b hb)) hGuarded hRest
      have hMem := ih (Option.map_eq_none_iff.mp h) hInner hLast
      exact .tail _ (.tail _ (List.mem_append_right _ hMem))
  | case5 =>
      rw [List.flatMap_cons, hBackslash] at hBytes
      cases hBody <;> simp at hBytes
  | case6 rest =>
      rw [List.flatMap_cons, hLine] at hBytes
      obtain ⟨inner, -, rfl, -⟩ := body_of_plain (by simp) hBody hBytes
      exact .head _
  | case7 c rest hQuote hGuard hAlone _ ih =>
      have hPlain : c ≠ '\\' := by
        intro hSame
        cases rest with
        | nil => exact hAlone hSame rfl
        | cons d others => exact hGuard d others hSame rfl
      rw [List.flatMap_cons] at hBytes
      obtain ⟨inner, _, rfl, hInner, hLast⟩ :=
        body_of_plain (Run.ne_of_mem_utf8EncodeChar hQuote hPlain) hBody hBytes
      have hMem := ih (Option.map_eq_none_iff.mp h) hInner hLast
      exact List.mem_append_right _ hMem

/-! ### Both readings of a literal -/

section readings

variable {text body after : List Char}

theorem piece_of_literalBody (h : literalBody text = some (body, after)) :
    piece '"' text = (.token .text (.text (String.ofList body)) ('"' :: body ++ ['"']), after) := by
  have hDigit : Digit.isDigit '"' = false := by decide
  simp [piece, isBlank, isWordStart, hDigit, h]

theorem piece_of_unclosed (h : literalBody text = none) : piece '"' text = (.stray '"', text) := by
  have hDigit : Digit.isDigit '"' = false := by decide
  simp [piece, isBlank, isWordStart, hDigit, h]

/-- A document takes a literal with its two quotes. -/
theorem cut_of_body {body value : Bytes} (h : LiteralBody body value) (position : Nat)
    (after : Bytes) :
    Markup.Lexer.cut position 0x22 (body ++ 0x22 :: after) =
      .ok ⟨some (.text, value), body.length + 2, after⟩ := by
  have hNoWord : Markup.Kind.text ∈ [Markup.Kind.showWord, .define, .identifier] →
      Markup.EndsWord after := by simp
  obtain ⟨b, more, hSpelling, hCut⟩ := Markup.Lexer.cut_of_written (.literal h) hNoWord position
  cases hSpelling
  simpa using hCut

end readings

/-- The quote at the front of a text means the same to a script and to a
document. If the script reads a literal there, the document takes the bytes of
that literal, no more and no fewer, and its value is the body with every
backslash dropped and the character behind it kept. If the script reads none,
the document reports that the literal is never closed, or it takes one that has
a line end in it. -/
theorem cut_agrees_with_piece (position : Nat) (rest : String) :
    (∃ body after : String, rest = body ++ "\"" ++ after ∧
      piece '"' rest.toList = (.token .text (.text body) ("\"" ++ body ++ "\"").toList,
        after.toList) ∧
      Markup.Lexer.cut position 0x22 (Utf8.encode rest) =
        .ok ⟨some (.text, Utf8.encode (Run.unescaped body)),
          (Utf8.encode ("\"" ++ body ++ "\"")).length, Utf8.encode after⟩) ∨
    (piece '"' rest.toList = (.stray '"', rest.toList) ∧
      (Markup.Lexer.cut position 0x22 (Utf8.encode rest) =
          .error (.unterminated (position + (Utf8.encode ("\"" ++ rest)).length)) ∨
        ∃ body value after, LiteralBody body value ∧
          Utf8.encode rest = body ++ 0x22 :: after ∧ 0x0a ∈ body ∧
          Markup.Lexer.cut position 0x22 (Utf8.encode rest) =
            .ok ⟨some (.text, value), body.length + 2, after⟩)) := by
  have hQuote : Utf8.encode "\"" = [0x22] := by decide
  cases hText : literalBody rest.toList with
  | some found =>
      obtain ⟨body, after⟩ := found
      have hRest : rest = String.ofList body ++ "\"" ++ String.ofList after := by
        rw [← String.toList_inj, eq_of_literalBody hText]
        simp
      have hBody : LiteralBody (Utf8.encode (String.ofList body))
          (Utf8.encode (Run.unescaped (String.ofList body))) := by
        apply Run.literalBody_text
        rw [String.toList_ofList]
        exact isLiteralBody_of_literalBody hText
      refine .inl ⟨String.ofList body, String.ofList after, hRest, ?_, ?_⟩
      · rw [piece_of_literalBody hText]
        simp
      · have hCut := cut_of_body hBody position (Utf8.encode (String.ofList after))
        simpa [hRest, Utf8.encode_append, hQuote] using hCut
  | none =>
      refine .inr ⟨piece_of_unclosed hText, ?_⟩
      cases hLiteral : Markup.Lexer.literal (Utf8.encode rest) with
      | none =>
          have hHalts : Markup.Lexer.Halts position (0x22 :: Utf8.encode rest) _ :=
            .unclosed (Markup.Lexer.neverClosed_of_literal hLiteral)
          rw [Utf8.encode_append, hQuote]
          exact .inl (Markup.Lexer.cut_of_halts hHalts)
      | some found =>
          obtain ⟨value, width, after⟩ := found
          obtain ⟨body, hBody, hBytes, rfl⟩ := Markup.Lexer.body_of_literal hLiteral
          refine .inr ⟨body, value, after, hBody, hBytes,
            newline_mem_of_literalBody hText hBody hBytes, ?_⟩
          rw [hBytes]
          exact cut_of_body hBody position after

end PageScript.Lexer
