import PageScript.Markup.Html

/-! Placeholders and what they are replaced by. A text falls apart in one way
only into bytes that are kept and placeholders, whatever the symbols are, so
values that are put in are never looked at as text. Main statement:
substitution fills these parts one by one, and where nothing is known there is
nothing left to fill. -/
namespace PageScript.Markup

/-- A part of a text: a byte that stays, or a placeholder with the name in its
braces. -/
inductive Part where
  | kept (b : UInt8)
  | hole (name : Bytes)
  deriving Repr, DecidableEq

namespace Part

/-- The part as it stands in the text. -/
def source : Part → Bytes
  | .kept b => [b]
  | .hole name => openBrace :: (name ++ [closeBrace])

/-- What stands in its place afterwards. An unknown name leaves nothing. -/
def filled (symbols : Symbols) : Part → Bytes
  | .kept b => [b]
  | .hole name => (symbols.lookup name).getD []

def isKept : Part → Bool
  | .kept _ => true
  | .hole _ => false

theorem filled_of_isKept {part : Part} (h : part.isKept = true) (symbols : Symbols) :
    part.filled symbols = part.source := by
  cases part with
  | kept b => rfl
  | hole name => cases h

end Part

/-- How a text falls apart. A placeholder ends at the first closing brace
behind its opening brace, and an opening brace is kept only where no closing
brace comes after it. -/
structure Splits (text : Bytes) (parts : List Part) : Prop where
  joined : parts.flatMap Part.source = text
  ends_first : ∀ name, .hole name ∈ parts → closeBrace ∉ name
  unclosed : ∀ before after, parts = before ++ .kept openBrace :: after →
      closeBrace ∉ after.flatMap Part.source

namespace Splits

variable {text : Bytes} {parts : List Part}

theorem nil : Splits [] [] where
  joined := rfl
  ends_first name h := by cases h
  unclosed before after h := by simp at h

theorem tail {part : Part} (h : Splits text (part :: parts)) :
    Splits (parts.flatMap Part.source) parts where
  joined := rfl
  ends_first name hMem := h.ends_first name (.tail _ hMem)
  unclosed before after hParts :=
    h.unclosed (part :: before) after (by rw [hParts, List.cons_append])

/-- A byte in front stays, if it is no brace that is closed later. -/
theorem cons_kept {b : UInt8} (hUnclosed : b = openBrace → closeBrace ∉ text)
    (h : Splits text parts) :
    Splits (b :: text) (.kept b :: parts) where
  joined := by rw [List.flatMap_cons, h.joined, Part.source, List.singleton_append]
  ends_first name hMem := h.ends_first name (by simpa using hMem)
  unclosed before after hParts := by
    cases before with
    | nil =>
        cases hParts
        rw [h.joined]
        exact hUnclosed rfl
    | cons part before =>
        cases hParts
        exact h.unclosed before after rfl

/-- A name in braces is a placeholder, if there is no closing brace in the
name. -/
theorem cons_hole {name : Bytes} (hName : closeBrace ∉ name) (h : Splits text parts) :
    Splits (openBrace :: (name ++ closeBrace :: text)) (.hole name :: parts) where
  joined := by simp [Part.source, h.joined]
  ends_first other hMem := by
    rcases List.mem_cons.mp hMem with hSame | hMem
    · cases hSame
      exact hName
    · exact h.ends_first other hMem
  unclosed before after hParts := by
    cases before with
    | nil => cases hParts
    | cons part before =>
        cases hParts
        exact h.unclosed before after rfl

end Splits

/-! ### Substitution, part by part -/

/-- A name ends at the first closing brace. -/
theorem placeholder?_append {name : Bytes} (hName : closeBrace ∉ name) (after : Bytes) :
    placeholder? (name ++ closeBrace :: after) = some (name, after) := by
  have hRun : ∀ b ∈ name, (b != closeBrace) = true := by
    intro b hb
    rw [bne_iff_ne]
    rintro rfl
    exact hName hb
  rw [placeholder?, if_pos (by simp), List.takeWhile_append_of_pos hRun,
    List.dropWhile_append_of_pos hRun]
  simp

theorem placeholder?_eq_none_iff {rest : Bytes} :
    placeholder? rest = none ↔ closeBrace ∉ rest := by
  simp [placeholder?]

section

variable (symbols : Symbols)

/-- A placeholder is replaced by the value of its name, or by nothing if the
name is unknown. -/
theorem substitute_hole {name : Bytes} (hName : closeBrace ∉ name) (rest : Bytes) :
    substitute symbols (openBrace :: (name ++ closeBrace :: rest)) =
      (symbols.lookup name).getD [] ++ substitute symbols rest := by
  have hFound := placeholder?_append hName rest
  rw [substitute, if_pos rfl]
  split
  · rename_i hSome
    rw [hFound] at hSome
    cases hSome
    rfl
  · rename_i hNone
    rw [hFound] at hNone
    cases hNone

theorem substitute_kept {b : UInt8} {rest : Bytes} (h : b = openBrace → closeBrace ∉ rest) :
    substitute symbols (b :: rest) = b :: substitute symbols rest := by
  rw [substitute]
  split
  · rename_i hOpen
    have hNone := placeholder?_eq_none_iff.mpr (h hOpen)
    split
    · rename_i hSome
      rw [hNone] at hSome
      cases hSome
    · rfl
  · rfl

/-- Substitution fills the parts of a text in their order. The induction is on
the parts. A value that was filled in is not looked at again. -/
theorem substitute_of_splits {text : Bytes} {parts : List Part} (h : Splits text parts) :
    substitute symbols text = parts.flatMap (Part.filled symbols) := by
  induction parts generalizing text with
  | nil =>
      rw [← h.joined]
      simp [substitute]
  | cons part parts ih =>
      have hTail := ih h.tail
      cases part with
      | kept b =>
          have hUnclosed : b = openBrace → closeBrace ∉ parts.flatMap Part.source := by
            rintro rfl
            exact h.unclosed [] parts rfl
          rw [← h.joined, List.flatMap_cons, Part.source, List.singleton_append,
            substitute_kept symbols hUnclosed, hTail]
          rfl
      | hole name =>
          have hText : text = openBrace :: (name ++ closeBrace :: parts.flatMap Part.source) := by
            rw [← h.joined]
            simp [Part.source]
          rw [hText, substitute_hole symbols (h.ends_first name (.head _)), hTail]
          rfl

end

/-! ### One way to fall apart -/

/-- Every text falls apart: each opening brace either has a first closing brace
behind it, which ends a placeholder, or is kept. -/
theorem exists_splits (text : Bytes) : ∃ parts, Splits text parts := by
  induction hLength : text.length using Nat.strongRecOn generalizing text with
  | _ length ih =>
      subst hLength
      cases text with
      | nil => exact ⟨[], .nil⟩
      | cons b rest =>
          by_cases hHole : b = openBrace ∧ closeBrace ∈ rest
          · obtain ⟨rfl, hClosed⟩ := hHole
            obtain ⟨name, after, rfl, hName⟩ := List.eq_append_cons_of_mem hClosed
            have hLess : after.length < (openBrace :: (name ++ closeBrace :: after)).length := by
              simp only [List.length_cons, List.length_append]
              omega
            obtain ⟨parts, hParts⟩ := ih after.length hLess after rfl
            exact ⟨.hole name :: parts, hParts.cons_hole hName⟩
          · obtain ⟨parts, hParts⟩ := ih rest.length (Nat.lt_succ_self _) rest rfl
            exact ⟨.kept b :: parts, hParts.cons_kept fun hOpen hMem => hHole ⟨hOpen, hMem⟩⟩

/-- A text does not begin both with a kept byte and with a placeholder. -/
theorem Splits.not_hole_of_kept {b : UInt8} {name : Bytes} {text : Bytes} {parts others : List Part}
    (hKept : Splits text (.kept b :: parts)) (hHole : Splits text (.hole name :: others)) :
    False := by
  have hSame : b :: parts.flatMap Part.source =
      openBrace :: (name ++ closeBrace :: others.flatMap Part.source) := by
    have hJoined := hKept.joined.trans hHole.joined.symm
    simpa [Part.source] using hJoined
  obtain ⟨rfl, hRest⟩ := List.cons.inj hSame
  have hNone := hKept.unclosed [] parts rfl
  rw [hRest] at hNone
  exact hNone (by simp)

/-- A text falls apart in one way only. The induction is on the parts of the
one way, the first of which is the first of the other. Where both begin with a
placeholder, the names end at the first closing brace of the same text. -/
theorem Splits.unique {text : Bytes} {parts others : List Part} (h : Splits text parts)
    (hOthers : Splits text others) :
    parts = others := by
  induction parts generalizing text others with
  | nil =>
      have hEmpty : text = [] := h.joined.symm
      subst hEmpty
      have hNil := hOthers.joined
      cases others with
      | nil => rfl
      | cons part others => cases part <;> simp [Part.source] at hNil
  | cons part parts ih =>
      cases others with
      | nil =>
          have hJoined := h.joined.trans hOthers.joined.symm
          cases part <;> simp [Part.source] at hJoined
      | cons other others =>
          have hJoined := h.joined.trans hOthers.joined.symm
          cases part with
          | kept b =>
              cases other with
              | kept c =>
                  obtain ⟨rfl, hRest⟩ : b = c ∧
                      parts.flatMap Part.source = others.flatMap Part.source := by
                    simpa [Part.source] using hJoined
                  rw [ih h.tail (hRest ▸ hOthers.tail)]
              | hole name => exact (h.not_hole_of_kept hOthers).elim
          | hole name =>
              cases other with
              | kept c => exact (hOthers.not_hole_of_kept h).elim
              | hole word =>
                  have hRest : name ++ closeBrace :: parts.flatMap Part.source =
                      word ++ closeBrace :: others.flatMap Part.source := by
                    simpa [Part.source] using hJoined
                  have hName :=
                    placeholder?_append (h.ends_first name (.head _)) (parts.flatMap Part.source)
                  have hWord := placeholder?_append (hOthers.ends_first word (.head _))
                    (others.flatMap Part.source)
                  rw [hRest, hWord] at hName
                  obtain ⟨rfl, hTails⟩ := Prod.mk.inj (Option.some.inj hName)
                  rw [ih h.tail (hTails ▸ hOthers.tail)]

/-! ### Nothing known -/

/-- Where no name is known, the kept bytes alone are left, and they fall apart
into themselves: a closing brace behind a kept opening brace would have stood
there before. -/
theorem Splits.filter_isKept {text : Bytes} {parts : List Part} (h : Splits text parts) :
    Splits (parts.flatMap (Part.filled [])) (parts.filter Part.isKept) where
  joined := by
    induction parts generalizing text with
    | nil => rfl
    | cons part parts ih =>
        have hTail := ih h.tail
        cases part with
        | kept b =>
            rw [List.filter_cons_of_pos rfl, List.flatMap_cons, List.flatMap_cons, hTail]
            rfl
        | hole name =>
            rw [List.filter_cons_of_neg (by simp [Part.isKept]), hTail]
            rfl
  ends_first name hMem := by
    have hKept := (List.mem_filter.mp hMem).2
    cases hKept
  unclosed before after hParts := by
    obtain ⟨first, second, rfl, -, hSecond⟩ := List.filter_eq_append_iff.mp hParts
    obtain ⟨between, last, rfl, -, -, hLast⟩ := List.filter_eq_cons_iff.mp hSecond
    have hNone := h.unclosed (first ++ between) last (by simp)
    rw [← hLast]
    intro hMem
    obtain ⟨part, hPart, hByte⟩ := List.mem_flatMap.mp hMem
    exact hNone (List.mem_flatMap.mpr ⟨part, (List.mem_filter.mp hPart).1, hByte⟩)

/-- A text falls apart in exactly one way, and whatever the symbols are,
substitution puts in the place of each placeholder what its name stands for,
keeps all other bytes in their order and looks at nothing that it has put in.
If no name is known, substituting once more changes nothing. -/
theorem substitute_exact (text : Bytes) :
    ∃ parts, Splits text parts ∧ (∀ others, Splits text others → others = parts) ∧
      (∀ symbols, substitute symbols text = parts.flatMap (Part.filled symbols)) ∧
      substitute [] (substitute [] text) = substitute [] text := by
  obtain ⟨parts, hParts⟩ := exists_splits text
  refine ⟨parts, hParts, fun others hOthers => hOthers.unique hParts,
    fun symbols => substitute_of_splits symbols hParts, ?_⟩
  have hOnce := substitute_of_splits [] hParts
  have hKept := hParts.filter_isKept
  calc substitute [] (substitute [] text)
      = (parts.filter Part.isKept).flatMap (Part.filled []) := by
        rw [hOnce, substitute_of_splits [] hKept]
    _ = (parts.filter Part.isKept).flatMap Part.source := by
        rw [List.flatMap_def, List.flatMap_def]
        exact congrArg List.flatten (List.map_congr_left fun part hPart =>
          Part.filled_of_isKept (List.mem_filter.mp hPart).2 [])
    _ = substitute [] text := by rw [hKept.joined, hOnce]

end PageScript.Markup
