import PageScript.Proofs.Sequencing
import PageScript.Value.Basic

/-! Texts without line ends. Whatever a value is, its written form has a line
end only if the value is a text that has one: numbers have none, and texts
inside a list are quoted. -/
namespace PageScript

/-- The text holds no line end. -/
def SingleLine (text : String) : Prop :=
  '\n' ∉ text.toList

instance (text : String) : Decidable (SingleLine text) :=
  inferInstanceAs (Decidable ('\n' ∉ text.toList))

@[simp] theorem singleLine_append {s t : String} :
    SingleLine (s ++ t) ↔ SingleLine s ∧ SingleLine t := by
  simp [SingleLine]

theorem singleLine_ofList {cs : List Char} : SingleLine (String.ofList cs) ↔ '\n' ∉ cs := by
  simp [SingleLine]

/-- Lines joined by a separator are one line, if the separator is one. -/
theorem singleLine_intercalate {separator : String} (hSeparator : SingleLine separator)
    {texts : List String} (h : ∀ t ∈ texts, SingleLine t) :
    SingleLine (separator.intercalate texts) := by
  induction texts with
  | nil =>
      rw [String.intercalate_nil]
      decide
  | cons t rest ih =>
      have hRest := ih fun u hu => h u (.tail _ hu)
      cases rest with
      | nil => simpa using h t (.head _)
      | cons u others =>
          rw [String.intercalate_cons_cons]
          simp [h t (.head _), hSeparator, hRest]

/-! ### Numbers -/

theorem singleLine_toString (n : Nat) : SingleLine (toString n) := by
  intro hMem
  rw [Nat.toString_eq_repr, Nat.toList_repr] at hMem
  exact absurd (Nat.isDigit_of_mem_toDigits (by decide) (by decide) hMem) (by decide)

/-- A written integer is one line. -/
theorem singleLine_writeInt {n : Int} {text : String} (h : writeInt n = .ok text) :
    SingleLine text := by
  unfold writeInt at h
  dsimp only at h
  split at h
  · cases h
  · cases h
    split
    · exact singleLine_append.mpr ⟨by decide, singleLine_toString _⟩
    · exact singleLine_toString _

theorem singleLine_zeros (count : Nat) : SingleLine (zeros count) := by
  simp [zeros, singleLine_ofList]

/-- Digits that are written with a point are one line. -/
theorem singleLine_positional {digits : String} (h : SingleLine digits) (point : Int) :
    SingleLine (positional digits point) := by
  have hTake (k : Nat) : SingleLine (String.ofList (digits.toList.take k)) :=
    singleLine_ofList.mpr fun hMem => h (List.mem_of_mem_take hMem)
  have hDrop (k : Nat) : SingleLine (String.ofList (digits.toList.drop k)) :=
    singleLine_ofList.mpr fun hMem => h (List.mem_of_mem_drop hMem)
  have hZero : SingleLine "0." := by decide
  have hEnd : SingleLine ".0" := by decide
  have hPoint : SingleLine "." := by decide
  unfold positional
  dsimp only
  split
  · simp only [singleLine_append]
    exact ⟨⟨hZero, singleLine_zeros _⟩, h⟩
  · split
    · simp only [singleLine_append]
      exact ⟨⟨h, singleLine_zeros _⟩, hEnd⟩
    · simp only [singleLine_append]
      exact ⟨⟨hTake _, hPoint⟩, hDrop _⟩

/-- Digits that are written with an exponent are one line. -/
theorem singleLine_scientific (format : DoubleFormat) {digits : String} (h : SingleLine digits)
    (exponent : Int) :
    SingleLine (scientific format digits exponent) := by
  have hMark : SingleLine "e" := by decide
  have hSign : SingleLine (if exponent < 0 then "-" else "+") := by
    split <;> decide
  have hSize := singleLine_toString exponent.natAbs
  unfold SingleLine at h
  unfold scientific
  dsimp only
  split
  · decide
  · rename_i d hDigits
    rw [hDigits] at h
    simp only [singleLine_append]
    exact ⟨⟨⟨singleLine_ofList.mpr h, hMark⟩, hSign⟩, singleLine_zeros _, hSize⟩
  · rename_i d rest _ hDigits
    rw [hDigits] at h
    have hHead : SingleLine (String.ofList (d :: '.' :: rest)) := by
      rw [singleLine_ofList]
      simpa using h
    simp only [singleLine_append]
    exact ⟨⟨⟨hHead, hMark⟩, hSign⟩, singleLine_zeros _, hSize⟩

/-- A written double is one line. -/
theorem singleLine_writeDouble (x : Float) : SingleLine (writeDouble x) := by
  unfold writeDouble
  split
  · split
    · decide
    · split <;> decide
  · rename_i f _
    have hSign : SingleLine (if f.negative = true then "-" else "") := by
      split <;> decide
    have hZero : SingleLine "0.0" := by decide
    dsimp only
    split
    · exact singleLine_append.mpr ⟨hSign, hZero⟩
    · split
      · exact singleLine_append.mpr ⟨hSign, singleLine_positional (singleLine_toString _) _⟩
      · exact singleLine_append.mpr ⟨hSign, singleLine_scientific _ (singleLine_toString _) _⟩

/-! ### Quoted texts -/

theorem digit_ne_newline {n : Nat} (h : n < 16) : Hex.digit n ≠ '\n' := by
  have hAll : ∀ n < 16, Hex.digit n ≠ '\n' := by decide
  exact hAll n h

/-- There is no line end among hexadecimal digits. -/
theorem newline_notMem_digits (width n : Nat) : '\n' ∉ Hex.digits width n := by
  induction width generalizing n with
  | zero => exact List.not_mem_nil
  | succ width ih =>
      rw [Hex.digits, List.mem_append, List.mem_singleton, not_or]
      exact ⟨ih _, (digit_ne_newline (Nat.mod_lt _ (by decide))).symm⟩

/-- A character that is quoted has no line end. A line end itself is written
with a backslash. -/
theorem newline_notMem_encodeChar {quote : Char} (hQuote : quote ≠ '\n') (c : Char) :
    '\n' ∉ Quoted.encodeChar quote c := by
  unfold Quoted.encodeChar
  split
  · rename_i hGuarded
    have hne : c ≠ '\n' := by
      rintro rfl
      rcases hGuarded with hBackslash | hSame
      · exact absurd hBackslash (by decide)
      · exact hQuote hSame.symm
    simp [hne.symm]
  · split
    · decide
    · rename_i hne
      split
      · decide
      · split
        · decide
        · split
          · simp [Ne.symm hne]
          · unfold Quoted.codeEscape
            split
            · simp [newline_notMem_digits]
            · split <;> simp [newline_notMem_digits]

/-- A quoted text is one line, whatever it holds. -/
theorem singleLine_encode (s : String) : SingleLine (Quoted.encode s) := by
  have hQuote : Quoted.quoteFor s.toList ≠ '\n' := by
    unfold Quoted.quoteFor
    split <;> decide
  rw [Quoted.encode, singleLine_ofList]
  simp [hQuote.symm, newline_notMem_encodeChar hQuote]

/-! ### Values -/

namespace Value

mutual

/-- A value that stands in a list is written as one line. -/
theorem singleLine_writeItem (v : Value) {text : String} (h : v.writeItem = .ok text) :
    SingleLine text := by
  cases v with
  | none =>
      cases h
      decide
  | bool b =>
      cases h
      cases b <;> decide
  | int n => exact singleLine_writeInt h
  | float x =>
      cases h
      exact singleLine_writeDouble x
  | text s =>
      cases h
      exact singleLine_encode s
  | list items =>
      rw [writeItem, bind_eq_ok_iff] at h
      obtain ⟨parts, hParts, hText⟩ := h
      cases hText
      have hInside :=
        singleLine_intercalate (by decide : SingleLine ", ") (singleLine_writeItems items hParts)
      simp [hInside, (by decide : SingleLine "["), (by decide : SingleLine "]")]

/-- The values of a list are written as one line each. -/
theorem singleLine_writeItems (items : List Value) {parts : List String}
    (h : writeItems items = .ok parts) :
    ∀ t ∈ parts, SingleLine t := by
  cases items with
  | nil =>
      cases h
      exact List.forall_mem_nil _
  | cons v rest =>
      rw [writeItems, bind_eq_ok_iff] at h
      obtain ⟨first, hFirst, h⟩ := h
      rw [bind_eq_ok_iff] at h
      obtain ⟨others, hOthers, h⟩ := h
      cases h
      intro t ht
      rcases List.mem_cons.mp ht with rfl | ht
      · exact singleLine_writeItem v hFirst
      · exact singleLine_writeItems rest hOthers t ht

end

/-- The text that a value is, if it is one. -/
def texts : Value → List String
  | text s => [s]
  | _ => []

/-- A value is written on one line, unless it is a text that has several. -/
theorem singleLine_write {v : Value} {text : String} (h : v.write = .ok text)
    (hTexts : ∀ t ∈ v.texts, SingleLine t) : SingleLine text := by
  cases v with
  | text s =>
      cases h
      exact hTexts _ (.head _)
  | _ => exact singleLine_writeItem _ h

end Value

end PageScript
