import PageScript.Proofs.Markup.Stuck
import PageScript.Proofs.Run.HandOver

/-! The content of page elements on its way to the markup language. Shown
values and declarations are written as markup items, but the marks around them
are not written in full: before the content stands half of a terminator, and
behind it half of a closing mark. The two halves make one closing mark if there
is nothing between them. Main statement: source with content is never read, and
with the marks in full it is read as the content it stands for. -/
namespace PageScript.Run

open Markup (Lexeme Laid EndsWord)
open Markup.Lexer (StuckInside)

/-- Values that can stand between the quotes of a literal as they are
written. -/
inductive IsLiteralValue : Value → Prop where
  | int (n : Int) : IsLiteralValue (.int n)
  | text {body : String} (hBody : IsLiteralBody body.toList) : IsLiteralValue (.text body)

/-- A whole number that has more digits than are written. -/
def TooLong (v : Value) : Prop :=
  ∃ n, v = .int n ∧ digitLimit < (toString n.natAbs).length

/-- An item of an element shows or declares this value. -/
inductive Holds (frames : List Frame) : Node → Value → Prop where
  | shown {value : Node} {v : Value} (hValue : evaluate frames value = .ok v) :
      Holds frames (.showStatement value) v
  | declaration {name : String} {type : Option Ty} {value : Node} {constant : Bool} {v : Value}
      (hName : IsElementName name) (hValue : evaluate frames value = .ok v) :
      Holds frames (.declaration name type value constant) v

/-- Content and the markup items it stands for: one for each of its own, in the
same order, with the value as it is written. -/
inductive Handed (frames : List Frame) : List Node → List Markup.Item → Prop where
  | nil : Handed frames [] []
  | shown {value : Node} {v : Value} {text : String} {content : List Node}
      {items : List Markup.Item}
      (hValue : evaluate frames value = .ok v) (hText : writeValue v = .ok text)
      (rest : Handed frames content items) :
      Handed frames (.showStatement value :: content)
        (.shown (Utf8.encode (unescaped text)) :: items)
  | declaration {name : String} {type : Option Ty} {value : Node} {constant : Bool} {v : Value}
      {text : String}
      {content : List Node} {items : List Markup.Item} (hValue : evaluate frames value = .ok v)
      (hText : writeValue v = .ok text) (rest : Handed frames content items) :
      Handed frames (.declaration name type value constant :: content)
        (.definition (Utf8.encode name) (Utf8.encode (unescaped text)) :: items)

/-- Source of content, with the items it stands for. -/
inductive ContentText : String → List Markup.Item → Prop where
  | nil : ContentText "" []
  | shown {text inside : String} {items : List Markup.Item} (hText : IsLiteralBody text.toList)
      (rest : ContentText inside items) :
      ContentText ("show \"" ++ text ++ "\"\\\\" ++ inside)
        (.shown (Utf8.encode (unescaped text)) :: items)
  | definition {name text inside : String} {items : List Markup.Item} (hName : IsElementName name)
      (hText : IsLiteralBody text.toList) (rest : ContentText inside items) :
      ContentText ("define " ++ name ++ "=\"" ++ text ++ "\"\\\\" ++ inside)
        (.definition (Utf8.encode name) (Utf8.encode (unescaped text)) :: items)

/-! ### Written values -/

theorem isLiteralBody_of_plain {body : List Char}
    (h : ∀ c ∈ body, c ≠ '"' ∧ c ≠ '\\' ∧ c ≠ '\n') :
    IsLiteralBody body := by
  induction body with
  | nil => exact .nil
  | cons c rest ih =>
      obtain ⟨hQuote, hBackslash, hLine⟩ := h c (.head _)
      exact .plain hQuote hBackslash hLine (ih fun d hd => h d (.tail _ hd))

/-- The digits and the sign of an integer need no guard. -/
theorem isLiteralBody_writeInt {n : Int} {text : String} (h : writeInt n = .ok text) :
    IsLiteralBody text.toList := by
  have hDigits : ∀ c ∈ (toString n.natAbs).toList, c ≠ '"' ∧ c ≠ '\\' ∧ c ≠ '\n' := by
    intro c hc
    rw [Nat.toString_eq_repr, Nat.toList_repr] at hc
    have hDigit := Nat.isDigit_of_mem_toDigits (by decide) (by decide) hc
    refine ⟨?_, ?_, ?_⟩
    all_goals
      rintro rfl
      exact absurd hDigit (by decide)
  unfold writeInt at h
  dsimp only at h
  split at h
  · cases h
  · cases h
    refine isLiteralBody_of_plain ?_
    split
    · rw [String.toList_append]
      intro c hc
      obtain hSign | hc := List.mem_append.mp hc
      · cases List.mem_singleton.mp hSign
        decide
      · exact hDigits c hc
    · exact hDigits

theorem writeInt_cases (n : Int) :
    writeInt n = .error .unwritable ∧ digitLimit < (toString n.natAbs).length ∨ ∃ text,
      writeInt n = .ok text := by
  unfold writeInt
  dsimp only
  split
  · rename_i hLong
    exact .inl ⟨rfl, hLong⟩
  · exact .inr ⟨_, rfl⟩

/-- A value that can stand between quotes is too long, or it is written as a
text that can stand there. -/
theorem writeValue_cases {v : Value} (h : IsLiteralValue v) :
    writeValue v = .error (.numeral .unwritable) ∧ TooLong v ∨
      ∃ text, writeValue v = .ok text ∧ IsLiteralBody text.toList := by
  cases h with
  | text hBody => exact .inr ⟨_, rfl, hBody⟩
  | int n =>
      have hInt : writeValue (.int n) = (writeInt n).mapError .numeral := by
        rw [writeValue, Value.write, Value.writeItem]
        rintro _ ⟨⟩
      rw [hInt]
      obtain ⟨hText, hLong⟩ | ⟨text, hText⟩ := writeInt_cases n
      · rw [hText]
        exact .inl ⟨rfl, n, rfl, hLong⟩
      · rw [hText]
        exact .inr ⟨text, rfl, isLiteralBody_writeInt hText⟩

/-- Writing an item in front of others fails only on a number that is too long.
Shown values and declarations differ only in the text around the value, which
is a parameter here. -/
theorem writeItem_cases {frames : List Frame} {value : Node} {v : Value}
    {rest : Except Fault String} {bad : Prop} {good : String → Prop}
    (hValue : evaluate frames value = .ok v) (hLiteral : IsLiteralValue v)
    (hRest : rest = .error (.numeral .unwritable) ∧ bad ∨ ∃ inside, rest = .ok inside ∧
      good inside)
    (join : String → String → String) :
    let item : Except Fault String := do
      let v ← evaluate frames value
      let text ← writeValue v
      let others ← rest
      return join text others
    item = .error (.numeral .unwritable) ∧ (TooLong v ∨ bad) ∨
      ∃ text inside, writeValue v = .ok text ∧ IsLiteralBody text.toList ∧ good inside ∧
        item = .ok (join text inside) := by
  dsimp only
  rw [hValue, ok_bind]
  obtain ⟨hText, hLong⟩ | ⟨text, hText, hBody⟩ := writeValue_cases hLiteral
  · exact .inl ⟨by rw [hText]; rfl, .inl hLong⟩
  · rw [hText, ok_bind]
    obtain ⟨rfl, hBad⟩ | ⟨inside, rfl, hGood⟩ := hRest
    · exact .inl ⟨rfl, .inr hBad⟩
    · exact .inr ⟨text, inside, rfl, hBody, hGood, rfl⟩

/-- Content is written as the items it stands for, unless it holds a number
that is too long. The induction is on the content, one item at a time. -/
theorem contentSource_cases {frames : List Frame} {content : List Node}
    (h : ∀ item ∈ content, ∃ v, Holds frames item v ∧ IsLiteralValue v) :
    contentSource frames content = .error (.numeral .unwritable) ∧
        (∃ item ∈ content, ∃ v, Holds frames item v ∧ TooLong v) ∨
      ∃ inside, contentSource frames content = .ok inside ∧
        ∃ items, Handed frames content items ∧ ContentText inside items := by
  induction content with
  | nil => exact .inr ⟨"", rfl, [], .nil, .nil⟩
  | cons item rest ih =>
      have hRest := ih fun other ho => h other (.tail _ ho)
      obtain ⟨v, hHolds, hLiteral⟩ := h item (.head _)
      have hLong : TooLong v ∨ (∃ item ∈ rest, ∃ v, Holds frames item v ∧ TooLong v) →
          ∃ other ∈ item :: rest, ∃ v, Holds frames other v ∧ TooLong v := by
        rintro (hLong | ⟨other, ho, hOther⟩)
        · exact ⟨item, .head _, v, hHolds, hLong⟩
        · exact ⟨other, .tail _ ho, hOther⟩
      cases hHolds with
      | shown hValue =>
          rw [contentSource]
          obtain ⟨hItem, hBad⟩ |
              ⟨text, inside, hText, hBody, ⟨items, hHanded, hInside⟩, hItem⟩ :=
            writeItem_cases hValue hLiteral hRest fun text others =>
              "show \"" ++ text ++ "\"\\\\" ++ others
          · exact .inl ⟨hItem, hLong hBad⟩
          · exact .inr ⟨_, hItem, _, .shown hValue hText hHanded, .shown hBody hInside⟩
      | @declaration name _ _ _ _ hName hValue =>
          rw [contentSource]
          obtain ⟨hItem, hBad⟩ |
              ⟨text, inside, hText, hBody, ⟨items, hHanded, hInside⟩, hItem⟩ :=
            writeItem_cases hValue hLiteral hRest
              fun text others => "define " ++ name ++ "=\"" ++ text ++ "\"\\\\" ++ others
          · exact .inl ⟨hItem, hLong hBad⟩
          · exact .inr ⟨_, hItem, _, .declaration hValue hText hHanded,
              .definition hName hBody hInside⟩

/-! ### Content as lexemes -/

theorem encode_shown (text inside : String) :
    Utf8.encode ("show \"" ++ text ++ "\"\\\\" ++ inside) =
      Markup.Lexer.showSpelling ++ 0x20 ::
        0x22 :: (Utf8.encode text ++ 0x22 :: 0x5c :: 0x5c :: Utf8.encode inside) := by
  have hOpen : Utf8.encode "show \"" = Markup.Lexer.showSpelling ++ [0x20, 0x22] := by decide
  have hClose : Utf8.encode "\"\\\\" = [0x22, 0x5c, 0x5c] := by decide
  simp [Utf8.encode_append, hOpen, hClose]

theorem encode_definition (name text inside : String) :
    Utf8.encode ("define " ++ name ++ "=\"" ++ text ++ "\"\\\\" ++ inside) =
      Markup.Lexer.defineSpelling ++ 0x20 :: (Utf8.encode name ++ 0x3d ::
        0x22 :: (Utf8.encode text ++ 0x22 :: 0x5c :: 0x5c :: Utf8.encode inside)) := by
  have hOpen : Utf8.encode "define " = Markup.Lexer.defineSpelling ++ [0x20] := by decide
  have hEquals : Utf8.encode "=\"" = [0x3d, 0x22] := by decide
  have hClose : Utf8.encode "\"\\\\" = [0x22, 0x5c, 0x5c] := by decide
  simp [Utf8.encode_append, hOpen, hEquals, hClose]

/-- The end of an item: its literal and a terminator. -/
theorem laid_ending {text : String} {lexemes : List Lexeme} {source : Bytes}
    (h : IsLiteralBody text.toList) (hRest : Laid lexemes source) :
    Laid (.literal (Utf8.encode (unescaped text)) :: .terminator :: lexemes)
      (0x22 :: (Utf8.encode text ++ 0x22 :: 0x5c :: 0x5c :: source)) := by
  have hLaid : Laid (.literal _ :: .terminator :: lexemes)
      (0x22 :: (Utf8.encode text ++ [0x22]) ++ ([0x5c, 0x5c] ++ source)) :=
    .cons (.literal (literalBody_text h)) (by simp [Lexeme.literal])
      (.cons .terminator (by simp [Lexeme.terminator]) hRest)
  simpa using hLaid

/-- The source of content is laid out as the lexemes of its items. -/
theorem laid_contentText {inside : String} {items : List Markup.Item} {lexemes : List Lexeme}
    {source : Bytes} (h : ContentText inside items) (position : Nat) (hRest : Laid lexemes source) :
    Laid (Markup.Item.lexemesAll (fun _ => false) [] position items ++ lexemes)
      (Utf8.encode inside ++ source) := by
  induction h generalizing position with
  | nil => exact hRest
  | shown hText _ ih =>
      have hLaid : Laid (.showWord :: _) (Markup.Lexer.showSpelling ++ 0x20 :: _) :=
        .cons .showWord (fun _ => Markup.endsWord_cons (by decide) _)
          (.blank (by decide) (laid_ending hText (ih (position + 1))))
      simpa [encode_shown, Markup.Item.lexemesAll, Markup.Item.lexemes] using hLaid
  | definition hName hText _ ih =>
      have hValue : Laid (.equals :: _) ([0x3d] ++ _) :=
        .cons .equals (by simp [Lexeme.equals]) (laid_ending hText (ih (position + 1)))
      have hLaid : Laid (.define :: .name _ :: _)
          (Markup.Lexer.defineSpelling ++ 0x20 :: (_ ++ _)) :=
        .cons .define (fun _ => Markup.endsWord_cons (by decide) _)
          (.blank (by decide)
            (.cons (.name (isName_encode hName))
              (fun _ => Markup.endsWord_cons (by decide) _) hValue))
      simpa [encode_definition, Markup.Item.lexemesAll, Markup.Item.lexemes] using hLaid

/-! ### Content inside out -/

/-- A name has neither quotes nor backslashes. -/
theorem plain_of_isName {word : Bytes} (h : Markup.IsName word) :
    ∀ b ∈ word, b ≠ 0x22 ∧ b ≠ 0x5c := by
  obtain ⟨first, rest, rfl, hFirst, hRest⟩ := h.spelled
  intro b hb
  have hPart : Markup.Lexer.isNamePart b = true := by
    obtain rfl | hb := List.mem_cons.mp hb
    · exact Markup.Lexer.isNamePart_of_isNameStart hFirst
    · exact hRest b hb
  constructor
  · rintro rfl
    cases hPart
  · rintro rfl
    cases hPart

/-- A literal that runs into an item ends at the opening quote of that. -/
theorem stuckInside_ending {text : String} {rest : Bytes} (h : IsLiteralBody text.toList)
    (hRest : StuckInside rest) :
    StuckInside (0x22 :: (Utf8.encode text ++ 0x22 :: 0x5c :: 0x5c :: rest)) :=
  Markup.Lexer.stuckInside_literal (literalBody_text h)
    (Markup.Lexer.stuckInside_escaped 0x5c hRest)

/-- A literal that runs into content leaves the lexer stuck, if one that runs
into what follows the content does. -/
theorem stuckInside_contentText {inside : String} {items : List Markup.Item} {rest : Bytes}
    (h : ContentText inside items) (hRest : StuckInside rest) :
    StuckInside (Utf8.encode inside ++ rest) := by
  induction h with
  | nil => exact hRest
  | shown hText _ ih =>
      have hHead : ∀ b ∈ Markup.Lexer.showSpelling ++ [0x20], b ≠ 0x22 ∧ b ≠ 0x5c := by
        simp [Markup.Lexer.showSpelling]
      rw [encode_shown]
      simpa using Markup.Lexer.stuckInside_append hHead (stuckInside_ending hText ih)
  | @definition name text inside items hName hText _ ih =>
      have hHead : ∀ b ∈ Markup.Lexer.defineSpelling ++ [0x20], b ≠ 0x22 ∧ b ≠ 0x5c := by
        simp [Markup.Lexer.defineSpelling]
      have hEquals : ∀ b ∈ [(0x3d : UInt8)], b ≠ 0x22 ∧ b ≠ 0x5c := by simp
      have hName := Markup.Lexer.stuckInside_append (plain_of_isName (isName_encode hName))
        (Markup.Lexer.stuckInside_append hEquals (stuckInside_ending hText ih))
      rw [encode_definition]
      simpa using Markup.Lexer.stuckInside_append hHead hName

theorem head_contentText {inside : String} {items : List Markup.Item} (h : ContentText inside items)
    (hItems : items ≠ []) : ∃ c tail, Utf8.encode inside = c :: tail ∧
    c ∈ [(0x73 : UInt8), 0x64] := by
  cases h with
  | nil => exact absurd rfl hItems
  | shown => exact ⟨_, _, encode_shown _ _, by decide⟩
  | definition => exact ⟨_, _, encode_definition _ _ _, by decide⟩

/-! ### Elements with content -/

/-- The source of an element with this content, as it is handed over. -/
def handedSource (tag : String) (attributes : Table String) (inside : String) : String :=
  "#" ++ tag ++ attributeSource attributes ++ " \\" ++ inside ++ "#" ++ tag

/-- The same with a whole closing mark behind the content. -/
def closedSource (tag : String) (attributes : Table String) (inside : String) : String :=
  "#" ++ tag ++ attributeSource attributes ++ " " ++ inside ++ "\\#" ++ tag

theorem elementSource_of_contentSource {frames : List Frame} {content : List Node} {inside : String}
    (tag : String) (attributes : Table String) (h : contentSource frames content = .ok inside) :
    elementSource frames tag attributes content = .ok (handedSource tag attributes inside) := by
  rw [elementSource, h]
  rfl

/-- Without content the two halves of the closing mark come together. -/
theorem handedSource_empty (tag : String) (attributes : Table String) :
    handedSource tag attributes "" = closedSource tag attributes "" := by
  have hMark : " \\" ++ "#" = " " ++ "\\#" := by decide
  calc handedSource tag attributes ""
    _ = "#" ++ tag ++ attributeSource attributes ++ (" \\" ++ "#") ++ tag := by
        simp only [handedSource, String.append_empty, String.append_assoc]
    _ = "#" ++ tag ++ attributeSource attributes ++ (" " ++ "\\#") ++ tag := by rw [hMark]
    _ = closedSource tag attributes "" := by
        simp only [closedSource, String.append_empty, String.append_assoc]

/-- With a whole closing mark behind it, an element with content would be read
with all its items. The lexemes are laid out in the source as the grammar of
documents wants them. -/
theorem read_closedSource {tag inside : String} {attributes : Table String}
    {items : List Markup.Item} (hTag : IsElementName tag)
    (hAttributes : ∀ entry ∈ attributes.entries, IsAttribute entry)
    (hInside : ContentText inside items) :
    Markup.Item.read (Utf8.encode (closedSource tag attributes inside)) =
      .ok (.element (Utf8.encode tag) (attributes.entries.map handedAttribute) items) := by
  have hName := isName_encode hTag
  have hHash : Utf8.encode "#" = [0x23] := by decide
  have hBlank : Utf8.encode " " = [0x20] := by decide
  have hMark : Utf8.encode "\\#" = [0x5c, 0x23] := by decide
  have hClosing : Laid [.closingHash, .name (Utf8.encode tag)]
      ([0x5c, 0x23] ++ (Utf8.encode tag ++ [])) :=
    .cons .closingHash (by simp [Lexeme.closingHash])
      (.cons (.name hName) (by simp [EndsWord]) .nil)
  have hLaid : Laid (.hash :: .name (Utf8.encode tag) :: _) ([0x23] ++ (Utf8.encode tag ++ _)) :=
    .cons .hash (by simp [Lexeme.hash])
      (.cons (.name hName) (fun _ => endsWord_attributeSource attributes _)
      (laid_attributeSource hAttributes (.blank (by decide) (laid_contentText hInside 0 hClosing))))
  have hForm := Markup.elementForm_of_itemForm (Markup.itemForm_lexemes (fun _ => false) []
    (.element (Utf8.encode tag) (attributes.entries.map handedAttribute) items))
  refine Markup.read_of_laid hForm ?_
  simpa [closedSource, Markup.Item.lexemes, Utf8.encode_append, hHash, hBlank, hMark] using hLaid

/-- Source with content is not read, whatever its attributes are. The backslash
before the content belongs to no mark, and what is behind it does not help: it
ends inside a literal. -/
theorem read_handedSource {tag inside : String} {items : List Markup.Item}
    (attributes : Table String) (hTag : IsElementName tag) (hInside : ContentText inside items)
    (hItems : items ≠ []) :
    ∃ fault, Markup.Item.read (Utf8.encode (handedSource tag attributes inside)) =
      .error fault := by
  have hHash : Utf8.encode "#" = [0x23] := by decide
  have hMark : Utf8.encode " \\" = [0x20, 0x5c] := by decide
  have hEnd : StuckInside ([0x23] ++ (Utf8.encode tag ++ [])) :=
    Markup.Lexer.stuckInside_append (by simp)
      (Markup.Lexer.stuckInside_append (plain_of_isName (isName_encode hTag))
        Markup.Lexer.stuckInside_nil)
  have hStuck := stuckInside_contentText hInside hEnd
  obtain ⟨c, tail, hBytes, hFirst⟩ := head_contentText hInside hItems
  have hPlain : ∀ c ∈ [(0x73 : UInt8), 0x64], c ≠ 0x22 ∧ c ≠ 0x5c ∧ c ≠ 0x23 := by
    simp
  obtain ⟨hQuote, hBackslash, hNumber⟩ := hPlain c hFirst
  rw [hBytes] at hStuck
  have hLone := Markup.Lexer.stuck_lone_backslash ⟨hBackslash, hNumber⟩
    (Markup.Lexer.stuckInside_tail hQuote hBackslash hStuck)
    ([0x23] ++ (Utf8.encode tag ++ Utf8.encode (attributeSource attributes)))
  refine Markup.read_of_stuck ?_
  simpa [handedSource, Utf8.encode_append, hHash, hMark, hBytes] using hLone

/-- Content of whole numbers and literal bodies is handed over in source that
is never read, whatever the attributes are: for attributes that can be read,
the element is read back if and only if it has no content. The items themselves
are written as they should be, and with the marks around them in full they are
read as what they stand for. -/
theorem read_elementSource_content (frames : List Frame) (tag : String) (attributes : Table String)
    (content : List Node) (hTag : IsElementName tag)
    (hContent : ∀ item ∈ content, ∃ v, Holds frames item v ∧ IsLiteralValue v) :
    elementSource frames tag attributes content = .error (.numeral .unwritable) ∧
        (∃ item ∈ content, ∃ v, Holds frames item v ∧ TooLong v) ∨
      ∃ source inside items, elementSource frames tag attributes content = .ok source ∧
        contentSource frames content = .ok inside ∧ Handed frames content items ∧
        (content ≠ [] → ∃ fault, Markup.Item.read (Utf8.encode source) = .error fault) ∧
        ((∀ entry ∈ attributes.entries, IsAttribute entry) →
          ((∃ handed, Markup.Item.read (Utf8.encode source) =
            .ok (.element (Utf8.encode tag) handed items)) ↔
            content = []) ∧
          Markup.Item.read (Utf8.encode (closedSource tag attributes inside)) =
            .ok (.element (Utf8.encode tag) (attributes.entries.map handedAttribute) items)) := by
  obtain ⟨hSource, hLong⟩ | ⟨inside, hSource, items, hHanded, hInside⟩ :=
    contentSource_cases hContent
  · exact .inl ⟨by rw [elementSource, hSource]; rfl, hLong⟩
  refine .inr ⟨_, inside, items, elementSource_of_contentSource tag attributes hSource, hSource,
    hHanded, ?_, ?_⟩
  · intro hSome
    refine read_handedSource attributes hTag hInside ?_
    rintro rfl
    cases hHanded
    exact hSome rfl
  · intro hAttributes
    have hClosed := read_closedSource hTag hAttributes hInside
    refine ⟨⟨?_, ?_⟩, hClosed⟩
    · rintro ⟨handed, hRead⟩
      cases hHanded with
      | nil => rfl
      | shown | declaration =>
          obtain ⟨fault, hFault⟩ :=
            read_handedSource attributes hTag hInside (List.cons_ne_nil _ _)
          rw [hFault] at hRead
          cases hRead
    · rintro rfl
      cases hSource
      rw [handedSource_empty]
      exact ⟨_, hClosed⟩

/-- A text with a guarded quote and a negative number, in an element with an
attribute whose last quote is guarded. -/
theorem read_elementSource_content_guarded :
    let attributes : Table String := ⟨[("title", "a\\")]⟩
    let content : List Node := [.showStatement (.string "\\\"hi\\\""),
      .declaration "n" (some .int) (.binary (.number (.int 3)) "-" (.number (.int 15))) false]
    IsElementName "p" ∧ (∀ item ∈ content, ∃ v, Holds [.empty] item v ∧
      IsLiteralValue v) ∧
      ∃ source fault, elementSource [.empty] "p" attributes content = .ok source ∧
        Markup.Item.read (Utf8.encode source) = .error fault := by
  intro attributes content
  have hTag : IsElementName "p" := ⟨⟨'p', [], rfl, rfl, by simp⟩, by decide, by decide⟩
  have hName : IsElementName "n" := ⟨⟨'n', [], rfl, rfl, by simp⟩, by decide, by decide⟩
  have hBody : IsLiteralBody "\\\"hi\\\"".toList :=
    .escaped (by decide) (.plain (by decide) (by decide) (by decide)
      (.plain (by decide) (by decide) (by decide)
      (.escaped (by decide) .nil)))
  have hContent : ∀ item ∈ content, ∃ v, Holds [.empty] item v ∧ IsLiteralValue v :=
    List.forall_mem_cons.mpr ⟨⟨_, .shown rfl, .text hBody⟩,
      List.forall_mem_cons.mpr ⟨⟨.int (-12), .declaration hName rfl, .int _⟩, nofun⟩⟩
  refine ⟨hTag, hContent, ?_⟩
  obtain ⟨hError, -⟩ | ⟨source, inside, items, hSource, -, -, hRefused, -⟩ :=
    read_elementSource_content [.empty] "p" attributes content hTag hContent
  · cases hError
  · obtain ⟨fault, hFault⟩ := hRefused (List.cons_ne_nil _ _)
    exact ⟨source, fault, hSource, hFault⟩

/-- The first letter of the content takes the lone backslash apart from its
hash. -/
theorem read_elementSource_shown :
    elementSource [.empty] "p" .empty [.showStatement (.string "hi")] =
      .ok "#p \\show \"hi\"\\\\#p" ∧
      Markup.Item.read (Utf8.encode "#p \\show \"hi\"\\\\#p") = .error (.unexpectedByte 0x5c 3) :=
  ⟨rfl, by cbv⟩

end PageScript.Run
