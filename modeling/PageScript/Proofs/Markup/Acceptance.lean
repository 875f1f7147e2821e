import PageScript.Proofs.Markup.Reading

/-! Documents whose end is marked. Main statement: tokens that close with the
mark of their end, and hold no other, are read exactly if a form of an element
stands in front, and otherwise refused for a reason that names what was
found. -/
namespace PageScript.Markup

/-- The last token is the mark of the end, and no other one is. -/
inductive Ended : List Token → Prop where
  | last {t : Token} (h : t.kind = .finish) : Ended [t]
  | cons {t : Token} {rest : List Token} (h : t.kind ≠ .finish) (others : Ended rest) :
      Ended (t :: rest)

/-- Behind a token that is not the mark of the end, the end is still marked. -/
theorem Ended.tail {t : Token} {rest : List Token} (h : Ended (t :: rest))
    (hKind : t.kind ≠ .finish) :
    Ended rest := by
  cases h with
  | last hFinish => exact absurd hFinish hKind
  | cons _ others => exact others

namespace Reader

variable {α β : Type}

/-- A reading that has not run past the end of its tokens. If it ended well it
has taken at least `least` of them, the mark of the end not among them. -/
def SafeOn (least : Nat) (tokens : List Token) (result : Except Fault (α × List Token)) : Prop :=
  result ≠ .error .exhausted ∧
    ∀ a rest, result = .ok (a, rest) → Ended rest ∧ rest.length + least ≤ tokens.length

/-- Reading is safe on every list of at most `n` tokens with a marked end. -/
def Safe (n least : Nat) (read : Reader α) : Prop :=
  ∀ tokens, Ended tokens → tokens.length ≤ n → SafeOn least tokens (read tokens)

theorem SafeOn.mono {least less : Nat} {tokens : List Token}
    {result : Except Fault (α × List Token)} (h : SafeOn least tokens result)
    (hLess : less ≤ least) : SafeOn less tokens result := by
  refine ⟨h.1, fun a rest hOk => ?_⟩
  obtain ⟨hEnded, hLength⟩ := h.2 a rest hOk
  exact ⟨hEnded, by omega⟩

/-- A token in front that has been looked at is one more that was taken. -/
theorem SafeOn.cons {least : Nat} {tokens : List Token} {result : Except Fault (α × List Token)}
    (h : SafeOn least tokens result) (t : Token) : SafeOn (least + 1) (t :: tokens) result := by
  refine ⟨h.1, fun a rest hOk => ?_⟩
  obtain ⟨hEnded, hLength⟩ := h.2 a rest hOk
  exact ⟨hEnded, by rw [List.length_cons]; omega⟩

theorem safeOn_ok {tokens rest : List Token} (hEnded : Ended rest)
    (hLength : rest.length ≤ tokens.length) (a : α) :
    SafeOn 0 tokens (.ok (a, rest)) := by
  constructor
  · intro h
    cases h
  · intro b last h
    cases h
    exact ⟨hEnded, hLength⟩

/-- A reading that is refused is safe, unless it has run out of tokens. -/
theorem safeOn_error {fault : Fault} (h : fault ≠ .exhausted) (least : Nat)
    (tokens : List Token) :
    SafeOn least tokens (.error fault : Except Fault (α × List Token)) := by
  constructor
  · intro hFault
    exact h (Except.error.inj hFault)
  · intro a rest hOk
    cases hOk

theorem Safe.return (n : Nat) (a : α) : Safe n 0 fun tokens => .ok (a, tokens) :=
  fun _ hEnded _ => safeOn_ok hEnded (Nat.le_refl _) a

/-- There is no list without tokens whose end is marked. -/
theorem Safe.zero (least : Nat) (read : Reader α) : Safe 0 least read := by
  intro tokens hEnded hLength
  cases hEnded <;> cases hLength

/-- One reading after another. The second meets fewer tokens. -/
theorem Safe.bind {n least more : Nat} {first : Reader α} {next : α → Reader β}
    (hFirst : Safe n least first) (hNext : ∀ a, Safe (n - least) more (next a)) :
    Safe n (least + more) fun tokens => first tokens >>= fun (a, rest) => next a rest := by
  intro tokens hEnded hLength
  obtain ⟨hNot, hOk⟩ := hFirst tokens hEnded hLength
  constructor
  · rw [ne_eq, bind_eq_error_iff]
    rintro (h | ⟨⟨a, rest⟩, hA, h⟩)
    · exact hNot h
    · obtain ⟨hRest, hLess⟩ := hOk a rest hA
      exact (hNext a rest hRest (by omega)).1 h
  · intro b last h
    obtain ⟨⟨a, rest⟩, hA, h⟩ := bind_eq_ok_iff.mp h
    obtain ⟨hRest, hLess⟩ := hOk a rest hA
    obtain ⟨hLast, hLeast⟩ := (hNext a rest hRest (by omega)).2 b last h
    exact ⟨hLast, by omega⟩

/-- To take one token of a kind is safe, as long as this kind is not the mark
of the end. -/
theorem safe_take (kind : Kind) (hKind : kind ≠ .finish) (what : Expectation) (n : Nat) :
    Safe n 1 (take kind what) := by
  intro tokens hEnded _
  cases tokens with
  | nil => cases hEnded
  | cons t rest =>
      rw [take]
      split
      · rename_i hTaken
        exact (safeOn_ok (hEnded.tail (hTaken ▸ hKind)) (Nat.le_refl _) t).cons t
      · exact safeOn_error (by simp) 1 _

theorem safe_oneAttribute (n : Nat) : Safe n 3 oneAttribute :=
  (safe_take .identifier (by decide) .attributeKey n).bind fun key =>
    (safe_take .colon (by decide) .attributeColon _).bind fun _ =>
      (safe_take .text (by decide) .attributeText _).bind fun value =>
        Safe.return _ (Attribute.mk key.text value.text)

/-- Attributes behind commas are read safely within a bound that exceeds the
number of tokens. -/
theorem safe_moreAttributes {n bound : Nat} (h : n < bound) : Safe n 0 (moreAttributes bound) := by
  induction bound generalizing n with
  | zero => cases h
  | succ bound ih =>
      intro tokens hEnded hLength
      by_cases hNext : next? tokens = some .comma
      · cases hEnded with
        | last hFinish => simp [next?, hFinish] at hNext
        | @cons comma rest _ hOthers =>
            rw [List.length_cons] at hLength
            have hSafe := (safe_oneAttribute (n - 1)).bind fun first =>
              (ih (n := n - 1 - 3) (by omega)).bind fun others => Safe.return _ (first :: others)
            rw [moreAttributes_of_comma (Option.some.inj hNext)]
            exact ((hSafe rest hOthers (by omega)).cons comma).mono (Nat.zero_le _)
      · rw [moreAttributes_of_ne_comma hNext]
        exact safeOn_ok hEnded (Nat.le_refl _) _

/-- At most one token is skipped behind the attributes, and it is not the mark
of the end. -/
theorem safeOn_afterAttributes {tokens : List Token} (hEnded : Ended tokens)
    (found : List Attribute) :
    SafeOn 0 tokens (.ok (found, afterAttributes tokens)) := by
  unfold afterAttributes
  split
  · rename_i hNext
    cases hEnded with
    | last hFinish => simp [next?, hFinish] at hNext
    | cons _ hOthers => exact safeOn_ok hOthers (by simp) _
  · exact safeOn_ok hEnded (Nat.le_refl _) _

/-- Attributes are read safely, whether there are any or not. -/
theorem safe_attributes (n : Nat) : Safe n 0 attributes := by
  intro tokens hEnded hLength
  rw [attributes_eq]
  split
  · have hMore : ∀ m, Safe m 0 fun tokens => moreAttributes (tokens.length + 1) tokens :=
      fun m tokens hTokens _ => safe_moreAttributes (Nat.lt_succ_self _) tokens hTokens
        (Nat.le_refl _)
    have hAfter : ∀ m found, Safe m 0 fun tokens => .ok (found, afterAttributes tokens) :=
      fun m found tokens hTokens _ => safeOn_afterAttributes hTokens found
    have hSafe := (safe_oneAttribute n).bind fun first =>
      (hMore _).bind fun others => hAfter _ (first :: others)
    exact (hSafe tokens hEnded hLength).mono (Nat.zero_le _)
  · exact safeOn_ok hEnded (Nat.le_refl _) _

/-- The value of a definition takes one token, of one of two kinds. -/
theorem safe_definedValue (n : Nat) : Safe n 1 definedValue := by
  intro tokens hEnded _
  cases tokens with
  | nil => cases hEnded
  | cons t rest =>
      rw [definedValue]
      split
      · rename_i hKind
        have hTail : Ended rest :=
          hEnded.tail (by rcases hKind with hKind | hKind <;> rw [hKind] <;> decide)
        exact (safeOn_ok hTail (Nat.le_refl _) t.text).cons t
      · exact safeOn_error (by simp) 1 _

/-- A text to show takes three tokens: the word, the text and the
terminator. -/
theorem safeOn_shown {first : Token} {rest : List Token} (hEnded : Ended rest) :
    SafeOn 3 (first :: rest) (shown (first :: rest)) := by
  have hSafe := (safe_take .text (by decide) .shownText rest.length).bind fun message =>
    (safe_take .terminator (by decide) .showEnd _).bind fun _ =>
      Safe.return _ (Item.shown message.text)
  exact (hSafe rest hEnded (Nat.le_refl _)).cons first

/-- A definition takes five tokens: the word, the name, the mark, the value and
the terminator. -/
theorem safeOn_definition {first : Token} {rest : List Token} (hEnded : Ended rest) :
    SafeOn 5 (first :: rest) (definition (first :: rest)) := by
  have hSafe := (safe_take .identifier (by decide) .definedName rest.length).bind fun name =>
    (safe_take .equals (by decide) .defineEquals _).bind fun _ =>
      (safe_definedValue _).bind fun value =>
      (safe_take .terminator (by decide) .defineEnd _).bind fun _ =>
        Safe.return _ (Item.definition name.text value)
  exact (hSafe rest hEnded (Nat.le_refl _)).cons first

/-- An item takes at least three tokens. -/
theorem safe_contentItem {n bound : Nat} (hElement : Safe n 4 (element bound)) :
    Safe n 3 (contentItem bound) := by
  intro tokens hEnded hLength
  cases tokens with
  | nil => cases hEnded
  | cons t rest =>
      rw [contentItem]
      split
      · rename_i hKind
        exact safeOn_shown (hEnded.tail (by rw [hKind]; decide))
      · rename_i hKind
        exact (safeOn_definition (hEnded.tail (by rw [hKind]; decide))).mono (by decide)
      · exact (hElement _ hEnded hLength).mono (by decide)
      · exact safeOn_error (by simp) 3 _

/-- With a bound of as many rounds as there are tokens, no reading runs out of
rounds. Elements and items are taken together, by induction on the bound: an
element takes two tokens before its items and two behind them. -/
theorem safe_reading (bound : Nat) :
    (∀ n, n ≤ bound → Safe n 4 (element bound)) ∧
      (∀ n, n < bound → Safe n 0 (items bound)) := by
  induction bound with
  | zero =>
      constructor
      · intro n h
        cases Nat.le_zero.mp h
        exact Safe.zero 4 _
      · intro n h
        cases h
  | succ bound ih =>
      obtain ⟨ihElement, ihItems⟩ := ih
      constructor
      · intro n h
        have hItems : Safe (n - 1 - 1 - 0) 0 (items bound) := by
          obtain hZero | hLess : n - 1 - 1 - 0 = 0 ∨ n - 1 - 1 - 0 < bound := by omega
          · rw [hZero]
            exact Safe.zero 0 _
          · exact ihItems _ hLess
        have hSame : ∀ (opening closing : Token) (found : Item) (m : Nat), Safe m 0 fun tokens =>
            if closing.text = opening.text then .ok (found, tokens)
            else .error (.mismatched closing.text opening.text) := by
          intro opening closing found m tokens hEnded hLength
          dsimp only
          split
          · exact safeOn_ok hEnded (Nat.le_refl _) found
          · exact safeOn_error (by simp) 0 _
        have hSafe := (safe_take .hash (by decide) .hash n).bind fun _ =>
          (safe_take .identifier (by decide) .tag _).bind fun opening =>
            (safe_attributes _).bind fun attributes => hItems.bind fun content =>
              (safe_take .closingHash (by decide) .closingHash _).bind fun _ =>
                (safe_take .identifier (by decide) .closingTag _).bind fun closing =>
                  hSame opening closing (.element opening.text attributes content) _
        intro tokens hEnded hLength
        rw [element]
        exact hSafe tokens hEnded hLength
      · intro n h
        cases n with
        | zero => exact Safe.zero 0 _
        | succ n =>
            intro tokens hEnded hLength
            cases tokens with
            | nil => cases hEnded
            | cons t rest =>
                by_cases hKind : t.kind = .closingHash
                · rw [items_of_closing hKind]
                  exact safeOn_ok hEnded (Nat.le_refl _) _
                · have hSafe := (safe_contentItem (ihElement (n + 1) (by omega))).bind fun first =>
                    (ihItems (n + 1 - 3) (by omega)).bind fun others =>
                      Safe.return _ (first :: others)
                  rw [items_of_not_closing hKind]
                  exact (hSafe _ hEnded hLength).mono (Nat.zero_le _)

theorem document_ne_exhausted {tokens : List Token} (h : Ended tokens) :
    document tokens ≠ .error .exhausted :=
  ((safe_reading (tokens.length + 1)).1 _ (Nat.le_succ _) tokens h (Nat.le_refl _)).1

/-- Tokens with a marked end are read as an element exactly if they begin with
a form of it, which is then what is taken. There is at most one such form in
front, for one element; what stands after it makes no difference. Without such
a form the tokens are refused, and never because reading ran past their end. -/
theorem document_reads_forms (tokens : List Token) (hEnded : Ended tokens) :
    (∀ item rest, document tokens = .ok (item, rest) ↔
      ∃ ts, tokens = ts ++ rest ∧ ElementForm item (ts.map Token.lexeme)) ∧
    (∀ ts us item other, ts <+: tokens → us <+: tokens →
      ElementForm item (ts.map Token.lexeme) →
      ElementForm other (us.map Token.lexeme) → ts = us ∧ item = other) ∧
    (∀ ts item, ts <+: tokens → ElementForm item (ts.map Token.lexeme) →
      ∀ rest, document (ts ++ rest) = .ok (item, rest)) ∧
    ((¬ ∃ ts item, ts <+: tokens ∧ ElementForm item (ts.map Token.lexeme)) →
      ∃ fault, document tokens = .error fault ∧ fault ≠ .exhausted) := by
  have hReads : ∀ {ts item}, ElementForm item (ts.map Token.lexeme) →
      ∀ rest, document (ts ++ rest) = .ok (item, rest) :=
    fun hForm rest => document_eq_ok_iff.mpr ⟨_, rfl, hForm⟩
  refine ⟨fun item rest => document_eq_ok_iff, ?_, fun ts item _ hForm => hReads hForm, ?_⟩
  · rintro ts us item other ⟨rest, rfl⟩ ⟨last, hTokens⟩ hForm hOther
    have hFirst := hReads hForm rest
    rw [← hTokens, hReads hOther last] at hFirst
    cases hFirst
    exact ⟨(List.append_cancel_right hTokens).symm, rfl⟩
  · intro hNone
    cases hRead : document tokens with
    | error fault =>
        refine ⟨fault, rfl, ?_⟩
        rintro rfl
        exact document_ne_exhausted hEnded hRead
    | ok result =>
        obtain ⟨ts, hTokens, hForm⟩ := document_eq_ok_iff.mp hRead
        exact absurd ⟨ts, result.1, ⟨result.2, hTokens.symm⟩, hForm⟩ hNone

/-- An element with an attribute, the terminator after it, and an empty element
inside. A comma behind it stays unread. -/
theorem document_reads_forms_nested :
    let front : List Token :=
      [⟨.hash, [0x23], 0⟩, ⟨.identifier, [0x61], 1⟩, ⟨.identifier, [0x6b], 3⟩,
        ⟨.colon, [0x3a], 4⟩, ⟨.text, [0x76], 5⟩, ⟨.terminator, [0x5c, 0x5c], 8⟩,
        ⟨.hash, [0x23], 11⟩, ⟨.identifier, [0x62], 12⟩,
        ⟨.closingHash, [0x5c, 0x23], 14⟩, ⟨.identifier, [0x62], 16⟩,
        ⟨.closingHash, [0x5c, 0x23], 18⟩, ⟨.identifier, [0x61], 20⟩]
    let rest : List Token := [⟨.comma, [0x2c], 22⟩, ⟨.finish, [], 23⟩]
    Ended (front ++ rest) ∧
      document (front ++ rest) = .ok
        (.element [0x61] [⟨[0x6b], [0x76]⟩] [.element [0x62] [] []], rest) := by
  intro front rest
  have hEnded : Ended (front ++ rest) := by
    repeat' first
      | exact .last rfl
      | refine .cons (by decide) ?_
  have hInside : ElementForm (.element [0x62] [] []) [⟨.hash, [0x23]⟩,
      ⟨.identifier, [0x62]⟩, ⟨.closingHash, [0x5c, 0x23]⟩, ⟨.identifier, [0x62]⟩] :=
      .mk _ _ _ .none .nil
  have hHead : HeadForm [⟨[0x6b], [0x76]⟩] [⟨.identifier, [0x6b]⟩, ⟨.colon, [0x3a]⟩,
      ⟨.text, [0x76]⟩, ⟨.terminator, [0x5c, 0x5c]⟩] := .terminated (.mk (.mk _ _ _) .nil) _
  have hForm : ElementForm (.element [0x61] [⟨[0x6b], [0x76]⟩] [.element [0x62] [] []])
      (front.map Token.lexeme) :=
    .mk [0x23] [0x61] [0x5c, 0x23] hHead (.cons (.element hInside) .nil)
  exact ⟨hEnded, ((document_reads_forms (front ++ rest) hEnded).1 _ rest).mpr
    ⟨front, rfl, hForm⟩⟩

end Reader

end PageScript.Markup
