import PageScript.Token.Lexer

/-! What the tokens of a source text carry. Every token is a word, a mark, a
literal or a number, and a whole number is short enough to be written out
again. -/
namespace PageScript

namespace Digit

theorem value?_lt {c : Char} {d : Nat} (h : value? c = some d) : d < 10 := by
  rw [value?, Option.map_eq_some_iff] at h
  obtain ⟨start, hFind, rfl⟩ := h
  have hRange := List.find?_some hFind
  rw [Bool.and_eq_true, decide_eq_true_eq, decide_eq_true_eq] at hRange
  omega

theorem value?_getD_lt (c : Char) : (value? c).getD 0 < 10 := by
  cases h : value? c with
  | none => decide
  | some d => exact value?_lt h

/-- Digits behind a number multiply it by ten each, and add less than one of
its units. -/
theorem foldl_lt (digits : List Char) (n : Nat) :
    digits.foldl (fun n c => 10 * n + (value? c).getD 0) n <
      (n + 1) * Nat.pow 10 digits.length := by
  induction digits generalizing n with
  | nil => simp
  | cons c rest ih =>
      have hDigit := value?_getD_lt c
      have hRest := ih (10 * n + (value? c).getD 0)
      have hPow : Nat.pow 10 (rest.length + 1) = Nat.pow 10 rest.length * 10 := rfl
      calc
        _ < (10 * n + (value? c).getD 0 + 1) * Nat.pow 10 rest.length := hRest
        _ ≤ (10 * (n + 1)) * Nat.pow 10 rest.length := Nat.mul_le_mul_right _ (by omega)
        _ = (n + 1) * Nat.pow 10 (rest.length + 1) := by
          rw [hPow, Nat.mul_comm 10, Nat.mul_assoc, Nat.mul_comm 10]

/-- A number has at most as many digits as it is read from. -/
theorem length_toString_number {digits : List Char} (h : digits ≠ []) :
    (toString (number digits)).length ≤ digits.length := by
  have hLess : number digits < (0 + 1) * Nat.pow 10 digits.length := foldl_lt digits 0
  rw [Nat.zero_add, Nat.one_mul] at hLess
  rw [Nat.toString_eq_repr, ← String.length_toList, Nat.toList_repr]
  exact (Nat.length_toDigits_le_iff (by decide) (List.length_pos_iff.mpr h)).mpr hLess

end Digit

theorem writeInt_ok {n : Int} (h : (toString n.natAbs).length ≤ digitLimit) :
    ∃ text, writeInt n = .ok text := by
  have hNot : ¬ digitLimit < (toString n.natAbs).length := Nat.not_lt.mpr h
  exact ⟨_, if_neg hNot⟩

namespace Lexer

/-- A text that can stand between the quotes of a literal. -/
def IsLiteral (s : String) : Prop :=
  ∃ rest after, literalBody rest = some (s.toList, after)

/-- A word that is an identifier. -/
structure IsName (word : String) : Prop where
  spelled : ∃ first rest, word.toList = first :: rest ∧ isWordStart first = true ∧
      ∀ c ∈ rest, isWordPart c = true
  unreserved : Terminal.reserved.lookup word = none

/-- The values that tokens of each kind carry. -/
inductive Reads : Terminal → Value → Prop where
  | truth (b : Bool) : Reads .boolean (.bool b)
  | reserved {word : String} {kind : Terminal} (listed : (word, kind) ∈ Terminal.reserved)
      (plain : kind ≠ .boolean) : Reads kind (.text word)
  | identifier {word : String} (named : IsName word) : Reads .identifier (.text word)
  | decimal (x : Float) : Reads .decimal (.float x)
  | integer {n : Nat} (short : (toString n).length ≤ digitLimit) : Reads .integer (.int n)
  | text {s : String} (literal : IsLiteral s) : Reads .text (.text s)
  | mark {spelling : String} {kind : Terminal} (listed : (spelling, kind) ∈ Terminal.marks) :
      Reads kind (.text spelling)

section pieces

variable {kind : Terminal} {value : Value} {text : List Char}

/-- A token that is made of a word reads a reserved word, a truth value or a
name. -/
theorem reads_of_wordToken {first : Char} {more : List Char} (hFirst : isWordStart first = true)
    (hMore : ∀ c ∈ more, isWordPart c = true)
    (h : wordToken (first :: more) = .token kind value text) :
    Reads kind value := by
  rw [wordToken] at h
  split at h
  · cases h
    exact .truth _
  · rename_i hNot hLookup
    cases h
    obtain ⟨before, after, hReserved, -⟩ := List.lookup_eq_some_iff.mp hLookup
    exact .reserved (by rw [hReserved]; simp) hNot
  · rename_i hLookup
    cases h
    exact .identifier ⟨⟨first, more, String.toList_ofList, hFirst, hMore⟩, hLookup⟩

/-- A token that is made of a number reads a whole number of not too many
digits, or a double. -/
theorem reads_of_numberPiece {c : Char} {rest : List Char}
    (h : (numberPiece c rest).1 = .token kind value text) : Reads kind value := by
  unfold numberPiece at h
  dsimp only at h
  split at h
  · cases h
    exact .decimal _
  · split at h
    · cases h
    · rename_i hShort
      cases h
      exact .integer (Nat.le_trans (Digit.length_toString_number (List.cons_ne_nil _ _))
        (Nat.not_lt.mp hShort))

theorem reads_of_markPiece {c : Char} {rest : List Char}
    (h : (markPiece c rest).1 = .token kind value text) : Reads kind value := by
  unfold markPiece at h
  split at h
  · rename_i hFind
    cases h
    exact .mark (List.mem_of_find?_eq_some hFind)
  · cases h

/-- Whatever character it begins with, a token reads a value of its kind. -/
theorem reads_of_piece {c : Char} {rest : List Char}
    (h : (piece c rest).1 = .token kind value text) :
    Reads kind value := by
  unfold piece at h
  split at h
  · cases h
  split at h
  · cases h
  split at h
  · rename_i hStart
    exact reads_of_wordToken hStart (List.all_eq_true.mp List.all_takeWhile) h
  split at h
  · exact reads_of_numberPiece h
  split at h
  · split at h
    · rename_i body after hBody
      cases h
      exact .text ⟨rest, after, by rw [hBody, String.toList_ofList]⟩
    · cases h
  · exact reads_of_markPiece h

end pieces

/-- Every piece of a text is cut off in front of some of its characters. -/
theorem exists_of_mem_pieces {text : List Char} {p : Piece} (h : p ∈ pieces text) :
    ∃ c rest, p = (piece c rest).1 := by
  fun_induction pieces text with
  | case1 => cases h
  | case2 c rest ih =>
      rcases List.mem_cons.mp h with rfl | hRest
      · exact ⟨c, rest, rfl⟩
      · exact ih hRest

/-- Every token is a piece that was given a place. -/
theorem exists_of_mem_locate {ps : List Piece} {here : Cursor} {t : Token}
    (h : t ∈ (collect (locate here ps)).tokens) :
    ∃ text, Piece.token t.kind t.value text ∈ ps := by
  induction ps generalizing here with
  | nil => cases h
  | cons p rest ih =>
      have hRest (hLater : t ∈ (collect (locate (here.after p.text) rest)).tokens) :
          ∃ text, Piece.token t.kind t.value text ∈ p :: rest := by
        obtain ⟨text, hText⟩ := ih hLater
        exact ⟨text, .tail _ hText⟩
      cases p with
      | token kind value text =>
          rcases List.mem_cons.mp h with rfl | hLater
          · exact ⟨text, .head _⟩
          · exact hRest hLater
      | overlong digits => cases h
      | _ => exact hRest h

/-- Every token of a source text carries what its kind allows. -/
theorem reads_of_mem_scan {source : String} {t : Token} (h : t ∈ (scan source).tokens) :
    Reads t.kind t.value := by
  obtain ⟨text, hText⟩ := exists_of_mem_locate h
  obtain ⟨c, rest, hPiece⟩ := exists_of_mem_pieces hText
  exact reads_of_piece hPiece.symm

end Lexer

end PageScript
