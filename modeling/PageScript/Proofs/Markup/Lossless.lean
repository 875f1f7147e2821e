import PageScript.Proofs.Markup.Lexing

/-! Cutting markup into tokens loses nothing, and it fails only where it must.
Bytes are covered by lexemes and blanks as far as possible; what is left then
is nothing, or begins with no lexeme. Main statement: tokens are returned
exactly if nothing is left, and otherwise the fault names the place where the
covering ends. -/
namespace PageScript.Markup.Lexer

/-- A lexeme and the number of bytes that stand before it. -/
structure Located where
  lexeme : Lexeme
  offset : Nat
  deriving Repr, DecidableEq

/-- The token of a lexeme at its place. It keeps what 32 bits can hold of the
place. -/
def Located.token (l : Located) : Token := ⟨l.lexeme.kind, l.lexeme.text, .ofNat l.offset⟩

/-- The end behind all lexemes. -/
def finishPlace (offset : Nat) : Located := ⟨finishLexeme, offset⟩

/-- From a position on, and with `rest` behind them, the bytes are made of
these lexemes, each at its own place, and of blanks. A word goes on as far as
it can. -/
inductive Covers (rest : Bytes) : Nat → Bytes → List Located → Prop where
  | nil {position : Nat} : Covers rest position [] []
  | blank {position : Nat} {b : UInt8} {bytes : Bytes} {lexed : List Located}
      (skips : isBlank b = true) (others : Covers rest (position + 1) bytes lexed) :
      Covers rest position (b :: bytes) lexed
  | lexeme {position : Nat} {l : Lexeme} {spelling bytes : Bytes} {lexed : List Located}
      (written : Written l spelling)
      (apart : l.kind ∈ [Kind.showWord, .define, .identifier] → EndsWord (bytes ++ rest))
      (others : Covers rest (position + spelling.length) bytes lexed) :
      Covers rest position (spelling ++ bytes) (⟨l, position⟩ :: lexed)

/-- No lexeme begins these bytes. -/
def Unspelled (bytes : Bytes) : Prop :=
  ∀ l spelling, Written l spelling → ¬ spelling <+: bytes

/-- A literal whose opening quote stands before these bytes is never closed. -/
def NeverClosed (bytes : Bytes) : Prop :=
  ∀ body value, LiteralBody body value → ¬ body ++ [0x22] <+: bytes

/-- Why nothing can be cut off these bytes, the first of which stands at this
position: they begin with a byte that starts no lexeme, which is reported where
it stands, or with a literal that is never closed, which is reported where the
bytes end. -/
inductive Halts (position : Nat) : Bytes → Fault → Prop where
  | stray {b : UInt8} {rest : Bytes} (solid : isBlank b = false) (unquoted : b ≠ 0x22)
      (unspelled : Unspelled (b :: rest)) : Halts position (b :: rest) (.unexpectedByte b position)
  | unclosed {rest : Bytes} (never : NeverClosed rest) :
      Halts position (0x22 :: rest) (.unterminated (position + (0x22 :: rest).length))

/-! ### Literals -/

/-- A literal that was read is a body and the quote that closes it. The
recursion is that of reading: a byte behind a backslash belongs to the body,
whatever it is. -/
theorem body_of_literal {bytes value after : Bytes} {width : Nat}
    (h : literal bytes = some (value, width, after)) :
    ∃ body, LiteralBody body value ∧ bytes = body ++ 0x22 :: after ∧
      width = body.length + 1 := by
  fun_induction literal bytes generalizing value width after with
  | case1 => cases h
  | case2 rest =>
      cases h
      exact ⟨[], .nil, rfl, rfl⟩
  | case3 => cases h
  | case4 b rest ih =>
      obtain ⟨⟨inner, less, last⟩, hInner, hSame⟩ := Option.map_eq_some_iff.mp h
      cases hSame
      obtain ⟨body, hBody, rfl, rfl⟩ := ih hInner
      exact ⟨0x5c :: b :: body, .escaped b hBody, rfl, rfl⟩
  | case5 b rest hQuote hAlone hGuard ih =>
      obtain ⟨⟨inner, less, last⟩, hInner, hSame⟩ := Option.map_eq_some_iff.mp h
      cases hSame
      obtain ⟨body, hBody, rfl, rfl⟩ := ih hInner
      have hBackslash : b ≠ 0x5c := by
        intro hSame
        cases hRest : body ++ 0x22 :: after with
        | nil => simp at hRest
        | cons c others => exact hGuard c others hSame hRest
      exact ⟨b :: body, .plain hQuote hBackslash hBody, rfl, rfl⟩

theorem neverClosed_of_literal {bytes : Bytes} (h : literal bytes = none) : NeverClosed bytes := by
  rintro body value hBody ⟨after, rfl⟩
  rw [List.append_assoc, List.singleton_append, literal_of_body hBody] at h
  cases h

/-! ### One cut -/

/-- A mark is written as its only byte, and is not a word. -/
theorem written_mark {b : UInt8} {kind : Kind} (h : mark? b = some kind) :
    Written ⟨kind, [b]⟩ [b] ∧ kind ∉ [Kind.showWord, .define, .identifier] := by
  unfold mark? at h
  split at h
  · rename_i hByte
    cases h
    exact ⟨hByte ▸ .hash, by decide⟩
  split at h
  · rename_i hByte
    cases h
    exact ⟨hByte ▸ .comma, by decide⟩
  split at h
  · rename_i hByte
    cases h
    exact ⟨hByte ▸ .colon, by decide⟩
  split at h
  · rename_i hByte
    cases h
    exact ⟨hByte ▸ .equals, by decide⟩
  · cases h

/-- A word is a keyword or a name. -/
theorem written_word {b : UInt8} {more : Bytes} (hStart : isNameStart b = true)
    (hMore : ∀ c ∈ more, isNamePart c = true) :
    Written ⟨wordKind (b :: more), b :: more⟩ (b :: more) := by
  unfold wordKind
  split
  · rename_i hShow
    rw [hShow]
    exact .showWord
  split
  · rename_i hDefine
    rw [hDefine]
    exact .define
  · rename_i hShow hDefine
    exact .name ⟨⟨b, more, rfl, hStart, hMore⟩, hShow, hDefine⟩

/-- What a lexeme can begin with. -/
inductive Begins : UInt8 → Bytes → Prop where
  | mark {b : UInt8} {more : Bytes} (marks : mark? b ≠ none) : Begins b more
  | pair {c : UInt8} (second : c = 0x5c ∨ c = 0x23) : Begins 0x5c [c]
  | quote {more : Bytes} : Begins 0x22 more
  | word {b : UInt8} {more : Bytes} (starts : isNameStart b = true) : Begins b more

theorem begins_of_written {l : Lexeme} {spelling : Bytes} (h : Written l spelling) :
    ∃ b more, spelling = b :: more ∧ Begins b more := by
  cases h with
  | closingHash => exact ⟨_, _, rfl, .pair (.inr rfl)⟩
  | terminator => exact ⟨_, _, rfl, .pair (.inl rfl)⟩
  | showWord => exact ⟨_, _, rfl, .word rfl⟩
  | define => exact ⟨_, _, rfl, .word rfl⟩
  | name h =>
      obtain ⟨b, more, rfl, hStart, -⟩ := h.spelled
      exact ⟨b, more, rfl, .word hStart⟩
  | literal => exact ⟨_, _, rfl, .quote⟩
  | _ => exact ⟨_, _, rfl, .mark (by decide)⟩

/-- All that cutting can come to. -/
inductive Outcome (position : Nat) : Bytes → Except Fault Cut → Prop where
  | blank {b : UInt8} {rest : Bytes} (skips : isBlank b = true) :
      Outcome position (b :: rest) (.ok ⟨none, 1, rest⟩)
  | token {l : Lexeme} {spelling rest : Bytes} (written : Written l spelling)
      (apart : l.kind ∈ [Kind.showWord, .define, .identifier] → EndsWord rest) :
      Outcome position (spelling ++ rest) (.ok ⟨some (l.kind, l.text), spelling.length, rest⟩)
  | fault {bytes : Bytes} {fault : Fault} (halts : Halts position bytes fault) :
      Outcome position bytes (.error fault)

/-- A byte that a name can begin with is cut off with all bytes behind it that
can be in a name. This is a keyword or an identifier. -/
theorem outcome_word {b : UInt8} (hStart : isNameStart b = true) (position : Nat) (rest : Bytes) :
    Outcome position (b :: rest) (.ok
      ⟨some (wordKind (b :: rest.takeWhile isNamePart), b :: rest.takeWhile isNamePart),
        (b :: rest.takeWhile isNamePart).length, rest.dropWhile isNamePart⟩) := by
  have hMore : ∀ c ∈ rest.takeWhile isNamePart, isNamePart c = true :=
    List.all_eq_true.mp List.all_takeWhile
  have hCut : Outcome position _ _ :=
    .token (written_word hStart hMore) fun _ => stops_dropWhile rest
  rwa [List.cons_append, List.takeWhile_append_dropWhile] at hCut

/-- Every byte is skipped as a blank, or begins a lexeme that is cut off, or
stops the lexer for a reason. -/
theorem outcome_cut (position : Nat) (b : UInt8) (rest : Bytes) :
    Outcome position (b :: rest) (cut position b rest) := by
  unfold cut
  split
  · exact .blank ‹_›
  rename_i hBlank
  split
  · rename_i hPair
    rw [Bool.and_eq_true, beq_iff_eq, beq_iff_eq, List.head?_eq_some_iff] at hPair
    obtain ⟨rfl, after, rfl⟩ := hPair
    exact .token .terminator (by simp)
  rename_i hTerminator
  split
  · rename_i hPair
    rw [Bool.and_eq_true, beq_iff_eq, beq_iff_eq, List.head?_eq_some_iff] at hPair
    obtain ⟨rfl, after, rfl⟩ := hPair
    exact .token .closingHash (by simp)
  rename_i hClosing
  split
  · rename_i kind hMark
    obtain ⟨hWritten, hKind⟩ := written_mark hMark
    exact .token hWritten fun h => absurd h hKind
  rename_i hMark
  split
  · rename_i hQuote
    cases beq_iff_eq.mp hQuote
    cases hLiteral : literal rest with
    | some found =>
        obtain ⟨value, width, after⟩ := found
        obtain ⟨body, hBody, rfl, rfl⟩ := body_of_literal hLiteral
        have hCut : Outcome position (_ ++ after) _ := .token (.literal hBody) (by simp)
        simpa using hCut
    | none =>
        have hHalts : Halts position _ _ := .unclosed (neverClosed_of_literal hLiteral)
        rw [List.length_cons, Nat.add_comm rest.length 1, ← Nat.add_assoc] at hHalts
        exact .fault hHalts
  rename_i hQuote
  split
  · exact outcome_word ‹_› position rest
  rename_i hStart
  refine .fault (.stray (Bool.not_eq_true _ ▸ hBlank)
    (fun hSame => hQuote (beq_iff_eq.mpr hSame)) ?_)
  intro l spelling hWritten hPrefix
  obtain ⟨c, more, rfl, hBegins⟩ := begins_of_written hWritten
  obtain ⟨rfl, hMore⟩ := List.cons_prefix_cons.mp hPrefix
  cases hBegins with
  | mark marks => exact marks hMark
  | pair second =>
      obtain ⟨after, rfl⟩ := hMore
      rcases second with rfl | rfl
      · exact hTerminator rfl
      · exact hClosing rfl
  | quote => exact hQuote rfl
  | word starts => exact hStart starts

/-! ### Where cutting stops -/

/-- Behind an opening quote that is never closed no lexeme begins at the
quote. -/
theorem unspelled_of_neverClosed {rest : Bytes} (h : NeverClosed rest) :
    Unspelled (0x22 :: rest) := by
  intro l spelling hWritten hPrefix
  have hHead : ∀ b more, spelling = b :: more → b = 0x22 := by
    rintro b more rfl
    exact (List.cons_prefix_cons.mp hPrefix).1
  cases hWritten with
  | literal hBody => exact h _ _ hBody (List.cons_prefix_cons.mp hPrefix).2
  | name hName =>
      obtain ⟨b, more, rfl, hStart, -⟩ := hName.spelled
      cases hHead b more rfl
      cases hStart
  | _ => exact absurd (hHead _ _ rfl) (by decide)

theorem Halts.unspelled {position : Nat} {bytes : Bytes} {fault : Fault}
    (h : Halts position bytes fault) :
    Unspelled bytes := by
  cases h with
  | stray _ _ unspelled => exact unspelled
  | unclosed never => exact unspelled_of_neverClosed never

/-- The bytes decide which fault there is. -/
theorem Halts.unique {position : Nat} {bytes : Bytes} {fault other : Fault}
    (h : Halts position bytes fault) (hOther : Halts position bytes other) : fault = other := by
  cases h with
  | stray _ unquoted _ =>
      cases hOther with
      | stray => rfl
      | unclosed => exact absurd rfl unquoted
  | unclosed =>
      cases hOther with
      | stray _ unquoted _ => exact absurd rfl unquoted
      | unclosed => rfl

theorem Halts.exists_cons {position : Nat} {bytes : Bytes} {fault : Fault}
    (h : Halts position bytes fault) :
    ∃ b rest, bytes = b :: rest ∧ isBlank b = false := by
  cases h with
  | stray solid => exact ⟨_, _, rfl, solid⟩
  | unclosed => exact ⟨_, _, rfl, rfl⟩

/-- Where the lexer halts nothing can be cut off, for the same reason. -/
theorem cut_of_halts {position : Nat} {b : UInt8} {rest : Bytes} {fault : Fault}
    (h : Halts position (b :: rest) fault) : cut position b rest = .error fault := by
  have hOutcome := outcome_cut position b rest
  generalize cut position b rest = result at hOutcome
  generalize hBytes : b :: rest = bytes at h hOutcome
  cases hOutcome with
  | blank skips =>
      obtain ⟨c, others, hSame, hSolid⟩ := h.exists_cons
      cases hSame
      rw [hSolid] at skips
      cases skips
  | token written => exact absurd (List.prefix_append _ _) (h.unspelled _ _ written)
  | fault halts => rw [halts.unique h]

/-! ### Whole sources -/

theorem tokensFrom_of_fault {position : Nat} {b : UInt8} {rest : Bytes} {fault : Fault}
    (hCut : cut position b rest = .error fault) :
    tokensFrom position (b :: rest) = .error fault := by
  rw [tokensFrom]
  split
  · rename_i hError
    rw [hCut] at hError
    cases hError
    rfl
  · rename_i hOk
    rw [hCut] at hOk
    cases hOk

theorem tokensFrom_of_token {position width : Nat} {b : UInt8} {rest after : Bytes} {l : Lexeme}
    (hCut : cut position b rest = .ok ⟨some (l.kind, l.text), width, after⟩) :
    tokensFrom position (b :: rest) =
      (tokensFrom (position + width) after).map (Located.token ⟨l, position⟩ :: ·) := by
  rw [tokensFrom]
  split
  · rename_i hError
    rw [hCut] at hError
    cases hError
  · rename_i hOk
    rw [hCut] at hOk
    cases hOk
    cases tokensFrom (position + width) after <;> rfl

/-- Covered bytes are cut into the tokens of the lexemes that cover them, and
cutting goes on behind them. -/
theorem tokensFrom_of_covers {rest before : Bytes} {position : Nat} {lexed : List Located}
    (h : Covers rest position before lexed) :
    tokensFrom position (before ++ rest) =
      (tokensFrom (position + before.length) rest).map (lexed.map Located.token ++ ·) := by
  induction h with
  | nil =>
      rw [List.nil_append, List.length_nil, Nat.add_zero]
      cases tokensFrom _ rest <;> rfl
  | blank skips _ ih =>
      rw [List.cons_append, tokensFrom_of_blank skips, ih, List.length_cons, Nat.add_right_comm,
        Nat.add_assoc]
  | @lexeme position l spelling bytes lexed written apart _ ih =>
      obtain ⟨b, more, rfl, hCut⟩ := cut_of_written written apart position
      rw [List.append_assoc, List.cons_append, tokensFrom_of_token hCut, ih, List.length_append,
        Nat.add_assoc]
      cases tokensFrom _ rest <;> rfl

theorem tokensFrom_of_halts {position : Nat} {bytes : Bytes} {fault : Fault}
    (h : Halts position bytes fault) :
    tokensFrom position bytes = .error fault := by
  obtain ⟨b, rest, rfl, -⟩ := h.exists_cons
  exact tokensFrom_of_fault (cut_of_halts h)

/-- Bytes are covered up to their end, or up to where cutting stops. The
induction is on how many they are, since each cut takes at least one. -/
theorem exists_covers (bytes : Bytes) (position : Nat) :
    ∃ before lexed rest, bytes = before ++ rest ∧ Covers rest position before lexed ∧
      (rest = [] ∨ ∃ fault, Halts (position + before.length) rest fault) := by
  induction hLength : bytes.length using Nat.strongRecOn generalizing bytes position with
  | ind size ih =>
      cases bytes with
      | nil => exact ⟨[], [], [], rfl, .nil, .inl rfl⟩
      | cons b others =>
          have hOutcome := outcome_cut position b others
          generalize cut position b others = result at hOutcome
          generalize hBytes : b :: others = bytes at hLength hOutcome
          cases hOutcome with
          | @blank c left skips =>
              rw [List.length_cons] at hLength
              obtain ⟨before, lexed, rest, rfl, hCovers, hEnd⟩ :=
                ih left.length (by omega) left (position + 1) rfl
              refine ⟨c :: before, lexed, rest, rfl, .blank skips hCovers, ?_⟩
              rwa [List.length_cons, Nat.add_comm before.length, ← Nat.add_assoc]
          | @token l spelling left written apart =>
              obtain ⟨c, more, rfl, -⟩ := begins_of_written written
              rw [List.length_append, List.length_cons] at hLength
              obtain ⟨before, lexed, rest, rfl, hCovers, hEnd⟩ :=
                ih left.length (by omega) left (position + (c :: more).length) rfl
              refine ⟨c :: more ++ before, ⟨l, position⟩ :: lexed, rest, ?_,
                .lexeme written apart hCovers, ?_⟩
              · rw [List.append_assoc]
              · rwa [List.length_append, ← Nat.add_assoc]
          | fault halts => exact ⟨[], [], bytes, rfl, .nil, .inr ⟨_, halts⟩⟩

section covered

variable {rest bytes : Bytes} {position : Nat} {lexed : List Located}

/-- What is covered before other bytes is covered on its own. -/
theorem Covers.alone (h : Covers rest position bytes lexed) : Covers [] position bytes lexed := by
  induction h with
  | nil => exact .nil
  | blank skips _ ih => exact .blank skips ih
  | @lexeme _ _ _ bytes _ written apart _ ih =>
      refine .lexeme written (fun hKind => ?_) ih
      have hApart := apart hKind
      cases bytes with
      | nil => exact stops_nil
      | cons b others => exact hApart

/-- Each lexeme stands before the next one, and all of them stand before the
end. A lexeme has at least one byte, so the next one stands further on. -/
theorem Covers.increasing (h : Covers rest position bytes lexed) :
    (∀ l ∈ lexed, position ≤ l.offset) ∧
      (lexed ++ [finishPlace (position + bytes.length)]).Pairwise fun l m =>
        l.offset < m.offset := by
  induction h with
  | nil => exact ⟨List.forall_mem_nil _, List.pairwise_singleton _ _⟩
  | blank _ _ ih =>
      refine ⟨fun l hl => Nat.le_of_succ_le (ih.1 l hl), ?_⟩
      rw [List.length_cons, Nat.add_comm _ 1, ← Nat.add_assoc]
      exact ih.2
  | @lexeme position l spelling bytes lexed written _ _ ih =>
      obtain ⟨b, more, rfl, -⟩ := begins_of_written written
      have hLater : ∀ m ∈ lexed ++ [finishPlace (position + (b :: more).length + bytes.length)],
          position < m.offset := by
        intro m hm
        rcases List.mem_append.mp hm with hLexeme | hFinish
        · have hOffset := ih.1 m hLexeme
          rw [List.length_cons] at hOffset
          omega
        · cases List.mem_singleton.mp hFinish
          simp only [finishPlace, List.length_cons]
          omega
      refine ⟨List.forall_mem_cons.mpr ⟨Nat.le_refl _, fun m hm => ?_⟩, ?_⟩
      · exact Nat.le_of_lt (hLater m (List.mem_append_left _ hm))
      · rw [List.length_append, ← Nat.add_assoc, List.cons_append]
        exact .cons hLater ih.2

end covered

/-- A source that is covered is cut into the tokens of its lexemes and of its
end. -/
theorem tokens_of_covers {source : Bytes} {lexed : List Located} (h : Covers [] 0 source lexed) :
    tokens source = .ok ((lexed ++ [finishPlace source.length]).map Located.token) := by
  have hTokens := tokensFrom_of_covers h
  rw [List.append_nil, Nat.zero_add, tokensFrom] at hTokens
  rw [List.map_append]
  exact hTokens

/-- A source that is covered up to where cutting stops is refused for that
reason. -/
theorem tokens_of_halts {before rest : Bytes} {lexed : List Located} {fault : Fault}
    (h : Covers rest 0 before lexed) (hHalts : Halts before.length rest fault) :
    tokens (before ++ rest) = .error fault := by
  rw [tokens, tokensFrom_of_covers h, Nat.zero_add, tokensFrom_of_halts hHalts]
  rfl

/-! ### Places kept in 32 bits -/

end PageScript.Markup.Lexer
