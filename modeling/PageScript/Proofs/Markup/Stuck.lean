import PageScript.Proofs.Markup.Lexing

/-! Sources that cannot be cut into tokens. A backslash that belongs to no mark
stops the lexer, unless it stands inside a literal. If an unclosed quote before
it makes it do so, the literals behind it are read inside out, and the quote
that ends the last of them opens a literal that is never closed. -/
namespace PageScript.Markup.Lexer

/-- From whatever position they are counted, these bytes are no tokens. -/
def Stuck (bytes : Bytes) : Prop :=
  ∀ position, ∃ fault, tokensFrom position bytes = .error fault

/-- A literal whose opening quote stands before these bytes ends where `after`
begins. -/
def EndsAt (bytes after : Bytes) : Prop :=
  ∃ value width, literal bytes = some (value, width, after)

theorem endsAt_quote {rest after : Bytes} (h : EndsAt (0x22 :: rest) after) : after = rest := by
  obtain ⟨value, width, h⟩ := h
  rw [literal] at h
  cases h
  rfl

theorem endsAt_escaped {b : UInt8} {rest after : Bytes} (h : EndsAt (0x5c :: b :: rest) after) :
    EndsAt rest after := by
  obtain ⟨value, width, h⟩ := h
  rw [literal, Option.map_eq_some_iff] at h
  obtain ⟨⟨inner, less, last⟩, hInner, hSame⟩ := h
  cases hSame
  exact ⟨inner, less, hInner⟩

/-- A byte that is neither a quote nor a backslash does not matter for where a
literal ends. -/
theorem endsAt_plain {b : UInt8} (hQuote : b ≠ 0x22) (hBackslash : b ≠ 0x5c)
    {rest after : Bytes} :
    EndsAt (b :: rest) after ↔ EndsAt rest after := by
  have hStep : literal (b :: rest) = (literal rest).map fun found =>
      (b :: found.1, found.2.1 + 1, found.2.2) := by
    rw [literal]
    · exact hQuote
    · exact fun hSame => absurd hSame hBackslash
    · exact fun _ _ hSame => absurd hSame hBackslash
  constructor
  · rintro ⟨value, width, h⟩
    rw [hStep, Option.map_eq_some_iff] at h
    obtain ⟨⟨inner, less, last⟩, hInner, hSame⟩ := h
    cases hSame
    exact ⟨inner, less, hInner⟩
  · rintro ⟨value, width, h⟩
    exact ⟨b :: value, width + 1, by rw [hStep, h]; rfl⟩

theorem not_endsAt_nil (after : Bytes) : ¬ EndsAt [] after := by
  rintro ⟨value, width, h⟩
  cases h

/-- Bytes without quotes and backslashes prolong a literal. -/
theorem endsAt_append {front rest after : Bytes}
    (hFront : ∀ b ∈ front, b ≠ 0x22 ∧ b ≠ 0x5c) (h : EndsAt (front ++ rest) after) :
    EndsAt rest after := by
  induction front with
  | nil => exact h
  | cons b front ih =>
      obtain ⟨hQuote, hBackslash⟩ := hFront b (.head _)
      exact ih (fun c hc => hFront c (.tail _ hc)) ((endsAt_plain hQuote hBackslash).mp h)

/-- A literal that runs into these bytes is never closed, or what follows it is
stuck. -/
def StuckInside (bytes : Bytes) : Prop :=
  ∀ after, EndsAt bytes after → Stuck after

/-! ### What a cut leaves -/

/-- The ways in which a cut can leave the bytes `after`. -/
inductive Leaves (b : UInt8) (rest : Bytes) : Bytes → Prop where
  | single (hQuote : b ≠ 0x22) (hBackslash : b ≠ 0x5c) : Leaves b rest rest
  | pair {c : UInt8} {after : Bytes} (hBackslash : b = 0x5c) (hSecond : c = 0x5c ∨ c = 0x23)
      (hRest : rest = c :: after) : Leaves b rest after
  | literal {after : Bytes} (hQuote : b = 0x22) (hLiteral : EndsAt rest after) : Leaves b rest after
  | word (hQuote : b ≠ 0x22) (hBackslash : b ≠ 0x5c) : Leaves b rest (rest.dropWhile isNamePart)

theorem head?_eq_some_of_and {b c d : UInt8} {rest : Bytes}
    (h : (b == c && rest.head? == some d) = true) :
    b = c ∧ ∃ after, rest = d :: after := by
  rw [Bool.and_eq_true, beq_iff_eq, beq_iff_eq, List.head?_eq_some_iff] at h
  exact h

/-- A cut leaves the bytes behind one byte, behind a mark of two bytes, behind
a literal or behind a word. -/
theorem leaves_of_cut {position : Nat} {b : UInt8} {rest : Bytes} {c : Cut}
    (h : cut position b rest = .ok c) :
    Leaves b rest c.rest := by
  have hNot : ∀ {d : UInt8}, isBlank d = false → isBlank b = true → b ≠ d := by
    rintro d hd hb rfl
    rw [hd] at hb
    cases hb
  unfold cut at h
  split at h
  · rename_i hBlank
    cases h
    exact .single (hNot rfl hBlank) (hNot rfl hBlank)
  split at h
  · rename_i hPair
    obtain ⟨hFirst, after, rfl⟩ := head?_eq_some_of_and hPair
    cases h
    exact .pair hFirst (.inl rfl) rfl
  split at h
  · rename_i hPair
    obtain ⟨hFirst, after, rfl⟩ := head?_eq_some_of_and hPair
    cases h
    exact .pair hFirst (.inr rfl) rfl
  split at h
  · rename_i kind hMark
    cases h
    refine .single ?_ ?_
    · rintro rfl
      cases hMark
    · rintro rfl
      cases hMark
  split at h
  · rename_i hQuote
    split at h
    · rename_i hLiteral
      cases h
      exact .literal (beq_iff_eq.mp hQuote) ⟨_, _, hLiteral⟩
    · cases h
  split at h
  · rename_i hQuote hStart
    cases h
    refine .word (fun hSame => hQuote (beq_iff_eq.mpr hSame)) ?_
    rintro rfl
    cases hStart
  · cases h

/-- Bytes are stuck if every cut leaves stuck bytes. -/
theorem stuck_cons {b : UInt8} {rest : Bytes} (h : ∀ after, Leaves b rest after → Stuck after) :
    Stuck (b :: rest) := by
  intro position
  rw [tokensFrom]
  split
  · exact ⟨_, rfl⟩
  · rename_i c hCut
    obtain ⟨fault, hFault⟩ := h c.rest (leaves_of_cut hCut) (position + c.width)
    rw [hFault]
    exact ⟨fault, rfl⟩

/-- A word ends before bytes that do not prolong it. -/
theorem dropWhile_append_of_endsWord {source : Bytes} (h : EndsWord source) (front : Bytes) :
    (front ++ source).dropWhile isNamePart = front.dropWhile isNamePart ++ source := by
  induction front with
  | nil => exact dropWhile_of_stops h
  | cons b front ih =>
      rw [List.cons_append, List.dropWhile_cons, List.dropWhile_cons, ih]
      split <;> rfl

/-! ### A lone backslash -/

/-- A literal that begins before a lone backslash ends before it, or runs on
behind it. The blank keeps a backslash at the end of `front` from guarding the
lone one. -/
theorem endsAt_over_backslash {c : UInt8} {tail after : Bytes} (front : Bytes)
    (h : EndsAt (front ++ 0x20 :: 0x5c :: c :: tail) after) :
    (∃ less, after = less ++ 0x20 :: 0x5c :: c :: tail ∧ less.length < front.length) ∨
      EndsAt tail after := by
  induction front using literal.induct with
  | case1 => exact .inr (endsAt_escaped ((endsAt_plain (by decide) (by decide)).mp h))
  | case2 rest => exact .inl ⟨rest, endsAt_quote h, by simp⟩
  | case3 => exact .inr (endsAt_escaped (endsAt_escaped h))
  | case4 b rest ih =>
      obtain ⟨less, hAfter, hLess⟩ | hTail := ih (endsAt_escaped h)
      · exact .inl ⟨less, hAfter, by simp only [List.length_cons]; omega⟩
      · exact .inr hTail
  | case5 b rest hQuote hLast hEscape ih =>
      have hBackslash : b ≠ 0x5c := by
        rintro rfl
        cases rest with
        | nil => exact hLast rfl rfl
        | cons c rest => exact hEscape c rest rfl rfl
      obtain ⟨less, hAfter, hLess⟩ | hTail := ih ((endsAt_plain hQuote hBackslash).mp h)
      · exact .inl ⟨less, hAfter, by simp only [List.length_cons]; omega⟩
      · exact .inr hTail

/-- Behind a lone backslash nothing can be read, whatever stands before it.
Cuts take bytes off the front until the backslash is reached, or a literal runs
over it. The induction is on the length of the front. -/
theorem stuck_lone_backslash {c : UInt8} {tail : Bytes} (hLone : c ≠ 0x5c ∧ c ≠ 0x23)
    (hTail : StuckInside tail) (front : Bytes) : Stuck (front ++ 0x20 :: 0x5c :: c :: tail) := by
  induction hLength : front.length using Nat.strongRecOn generalizing front with
  | _ length ih =>
      subst hLength
      cases front with
      | nil =>
          refine stuck_cons fun after hAfter => ?_
          have hBare : Stuck (0x5c :: c :: tail) := by
            refine stuck_cons fun after hAfter => ?_
            cases hAfter with
            | single _ hBackslash => exact absurd rfl hBackslash
            | pair _ hSecond hRest =>
                cases hRest
                exact absurd hSecond (not_or.mpr hLone)
            | literal hQuote => exact absurd hQuote (by decide)
            | word _ hBackslash => exact absurd rfl hBackslash
          cases hAfter with
          | single => exact hBare
          | pair hBackslash => exact absurd hBackslash (by decide)
          | literal hQuote => exact absurd hQuote (by decide)
          | word => exact hBare
      | cons b front =>
          rw [List.cons_append]
          refine stuck_cons fun after hAfter => ?_
          cases hAfter with
          | single => exact ih front.length (by simp) front rfl
          | pair _ hSecond hRest =>
              cases front with
              | nil =>
                  cases hRest
                  exact absurd hSecond (by decide)
              | cons d front =>
                  cases hRest
                  exact ih front.length (by simp only [List.length_cons]; omega) front rfl
          | literal _ hLiteral =>
              obtain ⟨less, rfl, hLess⟩ | hAfter := endsAt_over_backslash front hLiteral
              · exact ih less.length (by simp only [List.length_cons]; omega) less rfl
              · exact hTail after hAfter
          | word =>
              have hBlank : EndsWord (0x20 :: 0x5c :: c :: tail) := endsWord_cons rfl _
              rw [dropWhile_append_of_endsWord hBlank]
              exact ih _ (Nat.lt_succ_of_le (length_dropWhile_le isNamePart front)) _ rfl

/-! ### Literals read inside out -/

/-- Without the word in front, the body of a literal is still one. -/
theorem literalBody_dropWhile {body value : Bytes} (h : LiteralBody body value) :
    ∃ kept, LiteralBody (body.dropWhile isNamePart) kept := by
  induction h with
  | nil => exact ⟨[], .nil⟩
  | @plain b body value hQuote hBackslash rest ih =>
      rw [List.dropWhile_cons]
      split
      · exact ih
      · exact ⟨_, .plain hQuote hBackslash rest⟩
  | escaped b rest =>
      rw [List.dropWhile_cons_of_neg (by decide)]
      exact ⟨_, .escaped b rest⟩

/-- The body of a literal, read as if it stood outside, leads to the quote that
ends it. There a literal begins that runs into the bytes behind it. -/
theorem stuck_body {body value rest : Bytes} (h : LiteralBody body value)
    (hRest : StuckInside rest) :
    Stuck (body ++ 0x22 :: rest) := by
  induction hLength : body.length using Nat.strongRecOn generalizing body value with
  | _ length ih =>
      subst hLength
      cases h with
      | nil =>
          refine stuck_cons fun after hAfter => ?_
          cases hAfter with
          | single hQuote => exact absurd rfl hQuote
          | pair hBackslash => exact absurd hBackslash (by decide)
          | literal _ hLiteral => exact hRest after hLiteral
          | word hQuote => exact absurd rfl hQuote
      | @plain b body value hQuote hBackslash hBody =>
          rw [List.cons_append]
          refine stuck_cons fun after hAfter => ?_
          cases hAfter with
          | single => exact ih body.length (by simp) hBody rfl
          | pair hSame => exact absurd hSame hBackslash
          | literal hSame => exact absurd hSame hQuote
          | word =>
              obtain ⟨kept, hKept⟩ := literalBody_dropWhile hBody
              have hEnd : EndsWord (0x22 :: rest) := endsWord_cons rfl _
              rw [dropWhile_append_of_endsWord hEnd]
              exact ih _ (Nat.lt_succ_of_le (length_dropWhile_le isNamePart body)) hKept rfl
      | @escaped body value b hBody =>
          refine stuck_cons fun after hAfter => ?_
          cases hAfter with
          | single _ hSame => exact absurd rfl hSame
          | pair _ _ hSame =>
              cases hSame
              exact ih body.length (by simp only [List.length_cons]; omega) hBody rfl
          | literal hSame => exact absurd hSame (by decide)
          | word _ hSame => exact absurd rfl hSame

/-- A literal that runs into a written one ends at the opening quote of
that. -/
theorem stuckInside_literal {body value rest : Bytes} (hBody : LiteralBody body value)
    (hRest : StuckInside rest) :
    StuckInside (0x22 :: (body ++ 0x22 :: rest)) := by
  intro after hAfter
  rw [endsAt_quote hAfter]
  exact stuck_body hBody hRest

/-- A guarded byte in front does not help a literal out of bytes where it is
stuck. -/
theorem stuckInside_escaped (b : UInt8) {rest : Bytes} (h : StuckInside rest) :
    StuckInside (0x5c :: b :: rest) :=
  fun after hAfter => h after (endsAt_escaped hAfter)

/-- Bytes in front that are neither quotes nor backslashes do not help a
literal out of bytes where it is stuck. -/
theorem stuckInside_append {front rest : Bytes}
    (hFront : ∀ b ∈ front, b ≠ 0x22 ∧ b ≠ 0x5c) (h : StuckInside rest) :
    StuckInside (front ++ rest) :=
  fun after hAfter => h after (endsAt_append hFront hAfter)

theorem stuckInside_nil : StuckInside [] :=
  fun after hAfter => absurd hAfter (not_endsAt_nil after)

/-- If a literal is stuck in some bytes, it is stuck without the first of them,
if this is neither a quote nor a backslash. -/
theorem stuckInside_tail {b : UInt8} {rest : Bytes} (hQuote : b ≠ 0x22) (hBackslash : b ≠ 0x5c)
    (h : StuckInside (b :: rest)) : StuckInside rest :=
  fun after hAfter => h after ((endsAt_plain hQuote hBackslash).mpr hAfter)

end PageScript.Markup.Lexer

namespace PageScript.Markup

theorem read_of_stuck {source : Bytes} (h : Lexer.Stuck source) :
    ∃ fault, Item.read source = .error fault := by
  obtain ⟨fault, hFault⟩ := h 0
  exact ⟨fault, by rw [Item.read, Lexer.tokens, hFault]; rfl⟩

end PageScript.Markup
