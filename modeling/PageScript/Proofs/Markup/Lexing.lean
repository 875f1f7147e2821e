import PageScript.Proofs.Markup.Reading
import PageScript.Proofs.Text.Span

/-! Written lexemes are cut back out of their bytes. A name must not run on
into what follows it; any other lexeme ends where it ends, so blanks are only
needed between names. -/
namespace PageScript.Markup

/-- What may stand between the quotes of a literal, with the value it has. A
backslash keeps the byte after it, whatever that is; a quote and a backslash
need one. -/
inductive LiteralBody : Bytes → Bytes → Prop where
  | nil : LiteralBody [] []
  | plain {b : UInt8} {body value : Bytes} (hQuote : b ≠ 0x22) (hBackslash : b ≠ 0x5c)
      (rest : LiteralBody body value) : LiteralBody (b :: body) (b :: value)
  | escaped {body value : Bytes} (b : UInt8) (rest : LiteralBody body value) :
      LiteralBody (0x5c :: b :: body) (b :: value)

/-- A word that can name something: it begins with a letter or an underscore,
goes on with letters, digits and underscores, and is no keyword. -/
structure IsName (word : Bytes) : Prop where
  spelled : ∃ first rest, word = first :: rest ∧ Lexer.isNameStart first = true ∧
    ∀ b ∈ rest, Lexer.isNamePart b = true
  ne_show : word ≠ Lexer.showSpelling
  ne_define : word ≠ Lexer.defineSpelling

/-- The bytes that a lexeme can be written as. -/
inductive Written : Lexeme → Bytes → Prop where
  | hash : Written ⟨.hash, [0x23]⟩ [0x23]
  | closingHash : Written ⟨.closingHash, [0x5c, 0x23]⟩ [0x5c, 0x23]
  | comma : Written ⟨.comma, [0x2c]⟩ [0x2c]
  | colon : Written ⟨.colon, [0x3a]⟩ [0x3a]
  | equals : Written ⟨.equals, [0x3d]⟩ [0x3d]
  | terminator : Written ⟨.terminator, [0x5c, 0x5c]⟩ [0x5c, 0x5c]
  | showWord : Written ⟨.showWord, Lexer.showSpelling⟩ Lexer.showSpelling
  | define : Written ⟨.define, Lexer.defineSpelling⟩ Lexer.defineSpelling
  | name {word : Bytes} (h : IsName word) : Written ⟨.identifier, word⟩ word
  | literal {body value : Bytes} (h : LiteralBody body value) :
      Written ⟨.text, value⟩ (0x22 :: (body ++ [0x22]))

/-- These bytes do not prolong a word. -/
def EndsWord (rest : Bytes) : Prop :=
  ∀ b ∈ rest.head?, Lexer.isNamePart b = false

theorem endsWord_cons {b : UInt8} (h : Lexer.isNamePart b = false) (rest : Bytes) :
    EndsWord (b :: rest) := by
  intro c hc
  cases hc
  exact h

/-- Lexemes written in order, with blanks before, between and after them. -/
inductive Laid : List Lexeme → Bytes → Prop where
  | nil : Laid [] []
  | blank {lexemes : List Lexeme} {b : UInt8} {source : Bytes} (hBlank : Lexer.isBlank b = true)
      (rest : Laid lexemes source) : Laid lexemes (b :: source)
  | cons {l : Lexeme} {lexemes : List Lexeme} {spelling source : Bytes} (first : Written l spelling)
      (apart : l.kind ∈ [Kind.showWord, .define, .identifier] → EndsWord source)
      (rest : Laid lexemes source) : Laid (l :: lexemes) (spelling ++ source)

namespace Lexer

/-- A literal is read up to the quote behind its body, with its value, and its
width counts the quote. -/
theorem literal_of_body {body value : Bytes} (h : LiteralBody body value) (rest : Bytes) :
    literal (body ++ 0x22 :: rest) = some (value, body.length + 1, rest) := by
  induction h with
  | nil => rfl
  | @plain b body value hQuote hBackslash _ ih =>
      rw [List.cons_append, literal, ih]
      · rfl
      · exact hQuote
      · intro hSame
        exact absurd hSame hBackslash
      · intro c others hSame
        exact absurd hSame hBackslash
  | escaped b _ ih =>
      rw [List.cons_append, List.cons_append, literal, ih]
      rfl

theorem isNamePart_of_isNameStart {b : UInt8} (h : isNameStart b = true) : isNamePart b = true := by
  simp only [isNameStart, isNamePart, Bool.or_eq_true] at h ⊢
  rcases h with h | h
  · exact .inl (.inl h)
  · exact .inr h

theorem isBlank_eq_false {b : UInt8} (h : isNamePart b = true) : isBlank b = false := by
  simp only [isNamePart, isLetter, Bool.or_eq_true, Bool.and_eq_true, decide_eq_true_eq, beq_iff_eq,
    ← UInt8.toNat_inj] at h
  simp only [isBlank, Bool.or_eq_false_iff, beq_eq_false_iff_ne, ne_eq, Bool.and_eq_false_iff,
    decide_eq_false_iff_not, ← UInt8.toNat_inj]
  have hUnderscore : UInt8.toNat 0x5f = 0x5f := rfl
  have hSpace : UInt8.toNat 0x20 = 0x20 := rfl
  omega

/-- A byte that begins a word begins nothing else. -/
theorem cut_of_isNameStart {b : UInt8} (h : isNameStart b = true) (position : Nat) (rest : Bytes) :
    cut position b rest = .ok ⟨some (wordKind (b :: rest.takeWhile isNamePart),
      b :: rest.takeWhile isNamePart), (b :: rest.takeWhile isNamePart).length,
      rest.dropWhile isNamePart⟩ := by
  have hNot : ∀ c : UInt8, isNameStart c = false → b ≠ c := by
    rintro c hc rfl
    rw [h] at hc
    cases hc
  have hMark : mark? b = none := by
    simp [mark?, hNot 0x23 rfl, hNot 0x2c rfl, hNot 0x3a rfl, hNot 0x3d rfl]
  simp [cut, isBlank_eq_false (isNamePart_of_isNameStart h), hNot 0x5c rfl, hMark, hNot 0x22 rfl, h]

/-- A word is cut up to where its name part ends. -/
theorem cut_of_word {b : UInt8} {more rest : Bytes} (h : isNameStart b = true)
    (hMore : ∀ c ∈ more, isNamePart c = true) (hRest : EndsWord rest) (position : Nat) :
    cut position b (more ++ rest) =
      .ok ⟨some (wordKind (b :: more), b :: more), (b :: more).length, rest⟩ := by
  rw [cut_of_isNameStart h, takeWhile_run hMore hRest, dropWhile_run hMore hRest]

/-- Each written lexeme is cut off as it is. -/
theorem cut_of_written {l : Lexeme} {spelling : Bytes} (h : Written l spelling) {rest : Bytes}
    (hRest : l.kind ∈ [Kind.showWord, .define, .identifier] → EndsWord rest) (position : Nat) :
    ∃ b more, spelling = b :: more ∧
      cut position b (more ++ rest) = .ok ⟨some (l.kind, l.text), spelling.length, rest⟩ := by
  cases h with
  | showWord =>
      exact ⟨_, _, rfl, cut_of_word rfl (List.all_eq_true.mp rfl) (hRest (by decide)) position⟩
  | define =>
      exact ⟨_, _, rfl, cut_of_word rfl (List.all_eq_true.mp rfl) (hRest (by decide)) position⟩
  | name h =>
      obtain ⟨⟨b, more, rfl, hFirst, hMore⟩, hShow, hDefine⟩ := h
      have hKind : wordKind (b :: more) = .identifier := by
        rw [wordKind, if_neg hShow, if_neg hDefine]
      refine ⟨b, more, rfl, ?_⟩
      rw [cut_of_word hFirst hMore (hRest (by simp)), hKind]
  | literal h =>
      refine ⟨_, _, rfl, ?_⟩
      rw [List.append_assoc, List.singleton_append]
      simp [cut, isBlank, mark?, literal_of_body h]
  | _ => exact ⟨_, _, rfl, rfl⟩

/-- A blank is skipped, and counts as a place. -/
theorem tokensFrom_of_blank {position : Nat} {b : UInt8} {rest : Bytes} (h : isBlank b = true) :
    tokensFrom position (b :: rest) = tokensFrom (position + 1) rest := by
  have hCut : cut position b rest = .ok ⟨none, 1, rest⟩ := by rw [cut, if_pos h]
  rw [tokensFrom]
  split
  · rename_i hError
    rw [hCut] at hError
    cases hError
  · rename_i c hOk
    rw [hCut] at hOk
    cases hOk
    cases tokensFrom (position + 1) rest <;> rfl

/-- A lexeme that is cut off in front becomes the first token, and the others
are found behind it. -/
theorem tokensFrom_of_cut {position width : Nat} {b : UInt8} {rest text after : Bytes} {kind : Kind}
    (hCut : cut position b rest = .ok ⟨some (kind, text), width, after⟩)
    {following : List Token} (hAfter : tokensFrom (position + width) after = .ok following) :
    tokensFrom position (b :: rest) = .ok (⟨kind, text, .ofNat position⟩ :: following) := by
  rw [tokensFrom]
  split
  · rename_i hError
    rw [hCut] at hError
    cases hError
  · rename_i c hOk
    rw [hCut] at hOk
    cases hOk
    rw [hAfter]

/-- The lexeme that marks the end. -/
def finishLexeme : Lexeme := ⟨.finish, Utf8.encode "<EOF>"⟩

/-- The tokens of laid out lexemes are these lexemes. -/
theorem tokensFrom_of_laid {lexemes : List Lexeme} {source : Bytes} (h : Laid lexemes source)
    (position : Nat) :
    ∃ tokens, tokensFrom position source = .ok tokens ∧
      tokens.map Token.lexeme = lexemes ++ [finishLexeme] := by
  induction h generalizing position with
  | nil =>
      refine ⟨[⟨.finish, Utf8.encode "<EOF>", .ofNat position⟩], ?_, rfl⟩
      rw [tokensFrom]
  | blank hBlank _ ih =>
      rw [tokensFrom_of_blank hBlank]
      exact ih (position + 1)
  | cons first apart _ ih =>
      obtain ⟨b, more, rfl, hCut⟩ := cut_of_written first apart position
      obtain ⟨following, hFollowing, hLexemes⟩ := ih (position + (b :: more).length)
      refine ⟨_, tokensFrom_of_cut hCut hFollowing, ?_⟩
      rw [List.map_cons, hLexemes]
      rfl

end Lexer

/-- A laid out form of an element is read as that element. -/
theorem read_of_laid {item : Item} {lexemes : List Lexeme} {source : Bytes}
    (hForm : ElementForm item lexemes) (hLaid : Laid lexemes source) :
    Item.read source = .ok item := by
  obtain ⟨tokens, hTokens, hLexemes⟩ := Lexer.tokensFrom_of_laid hLaid 0
  obtain ⟨ts, rest, rfl, rfl, -⟩ := List.map_eq_append_iff.mp hLexemes
  have hDocument := Reader.document_eq_ok_iff.mpr ⟨ts, Eq.refl (ts ++ rest), hForm⟩
  rw [Item.read, Lexer.tokens, hTokens, ok_bind, hDocument]
  rfl

end PageScript.Markup
