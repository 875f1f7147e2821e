import PageScript.Proofs.Markup.RoundTrip
import PageScript.Proofs.Text.Utf8
import PageScript.Run.Machine
import PageScript.Token.Lexer

/-! Page elements on their way to the markup language. Main statement: an
element that holds attributes only is walked through as it stands in the
script, with its literals freed from their escapes. -/
namespace PageScript.Run

open Markup (Lexeme Laid EndsWord)

/-- A word of a script that can name an element or an attribute in markup. -/
structure IsElementName (word : String) : Prop where
  spelled : ∃ first rest, word.toList = first :: rest ∧ Lexer.isWordStart first = true ∧
    ∀ c ∈ rest, Lexer.isWordPart c = true
  ne_show : word ≠ "show"
  ne_define : word ≠ "define"

/-- What may stand between the quotes of a literal in a script: no line end,
and a quote or a backslash only behind a backslash. -/
inductive IsLiteralBody : List Char → Prop where
  | nil : IsLiteralBody []
  | plain {c : Char} {body : List Char} (hQuote : c ≠ '"') (hBackslash : c ≠ '\\')
      (hLine : c ≠ '\n')
      (rest : IsLiteralBody body) : IsLiteralBody (c :: body)
  | escaped {c : Char} {body : List Char} (hLine : c ≠ '\n') (rest : IsLiteralBody body) :
      IsLiteralBody ('\\' :: c :: body)

/-- A backslash drops out and keeps the character after it. -/
def unescape : List Char → List Char
  | '\\' :: c :: rest => c :: unescape rest
  | c :: rest => c :: unescape rest
  | [] => []

theorem unescape_cons {c : Char} (h : c ≠ '\\') (rest : List Char) :
    unescape (c :: rest) = c :: unescape rest := by
  rw [unescape]
  rintro d tail rfl
  exact absurd rfl h

def unescaped (body : String) : String :=
  String.ofList (unescape body.toList)

/-! ### Names and literals as bytes -/

theorem toNat_of_isAlpha {c : Char} (h : c.isAlpha = true) :
    0x41 ≤ c.toNat ∧ c.toNat ≤ 0x5a ∨ 0x61 ≤ c.toNat ∧ c.toNat ≤ 0x7a := by
  have hClass : (decide ('A'.val ≤ c.val ∧ c.val ≤ 'Z'.val) ||
      (decide ('a'.val ≤ c.val) && decide (c.val ≤ 'z'.val))) = true := h
  simpa [UInt32.le_iff_toNat_le] using hClass

theorem toNat_of_isDigit {c : Char} (h : c.isDigit = true) :
    0x30 ≤ c.toNat ∧ c.toNat ≤ 0x39 := by
  simpa [Char.isDigit, UInt32.le_iff_toNat_le] using h

/-- A letter of a script is one byte, which is a letter of markup. -/
theorem isLetter_of_isAlpha {c : Char} (h : c.isAlpha = true) :
    c.toNat < 0x80 ∧ Markup.Lexer.isLetter (UInt8.ofNat c.toNat) = true := by
  have hRange := toNat_of_isAlpha h
  have hByte : (UInt8.ofNat c.toNat).toNat = c.toNat := Utf8.toNat_ofNat_of_lt (by omega)
  refine ⟨by omega, ?_⟩
  simp only [Markup.Lexer.isLetter, hByte, Bool.or_eq_true, Bool.and_eq_true, decide_eq_true_eq]
  omega

/-- What a word of a script can begin with, a name of markup can begin with,
and it is one byte. -/
theorem isNameStart_of_isWordStart {c : Char} (h : Lexer.isWordStart c = true) :
    ∃ b, String.utf8EncodeChar c = [b] ∧ Markup.Lexer.isNameStart b = true := by
  rw [Lexer.isWordStart, Bool.or_eq_true, beq_iff_eq] at h
  obtain hAlpha | rfl := h
  · obtain ⟨hSmall, hLetter⟩ := isLetter_of_isAlpha hAlpha
    exact ⟨_, Utf8.utf8EncodeChar_of_lt hSmall,
      by rw [Markup.Lexer.isNameStart, hLetter, Bool.true_or]⟩
  · exact ⟨0x5f, by decide, by decide⟩

/-- What can be in a word of a script can be in a name of markup, and it is one
byte. -/
theorem isNamePart_of_isWordPart {c : Char} (h : Lexer.isWordPart c = true) :
    ∃ b, String.utf8EncodeChar c = [b] ∧ Markup.Lexer.isNamePart b = true := by
  rw [Lexer.isWordPart, Char.isAlphanum, Bool.or_eq_true, Bool.or_eq_true, beq_iff_eq] at h
  obtain (hAlpha | hDigit) | rfl := h
  · obtain ⟨hSmall, hLetter⟩ := isLetter_of_isAlpha hAlpha
    exact ⟨_, Utf8.utf8EncodeChar_of_lt hSmall, by rw [Markup.Lexer.isNamePart, hLetter]; rfl⟩
  · have hRange := toNat_of_isDigit hDigit
    refine ⟨_, Utf8.utf8EncodeChar_of_lt (by omega), ?_⟩
    simp [Markup.Lexer.isNamePart, Utf8.toNat_ofNat_of_lt (show c.toNat < 256 by omega), hRange]
  · exact ⟨0x5f, by decide, by decide⟩

/-- A word of a script that can name an element is a name of markup. -/
theorem isName_encode {word : String} (h : IsElementName word) :
    Markup.IsName (Utf8.encode word) := by
  obtain ⟨⟨first, rest, hWord, hFirst, hRest⟩, hShow, hDefine⟩ := h
  refine ⟨?_, ?_, ?_⟩
  · obtain ⟨b, hBytes, hStart⟩ := isNameStart_of_isWordStart hFirst
    refine ⟨b, rest.flatMap String.utf8EncodeChar,
      by simp [Utf8.encode, hWord, hBytes], hStart, ?_⟩
    intro c hc
    obtain ⟨char, hChar, hMem⟩ := List.mem_flatMap.mp hc
    obtain ⟨d, hByte, hPart⟩ := isNamePart_of_isWordPart (hRest char hChar)
    rw [hByte, List.mem_singleton] at hMem
    rwa [hMem]
  · intro hSame
    exact hShow (Utf8.encode_injective hSame)
  · intro hSame
    exact hDefine (Utf8.encode_injective hSame)

theorem literalBody_append {bytes body value : Bytes}
    (hBytes : ∀ b ∈ bytes, b ≠ 0x22 ∧ b ≠ 0x5c) (h : Markup.LiteralBody body value) :
    Markup.LiteralBody (bytes ++ body) (bytes ++ value) := by
  induction bytes with
  | nil => exact h
  | cons b rest ih =>
      exact .plain (hBytes b (.head _)).1 (hBytes b (.head _)).2
        (ih fun c hc => hBytes c (.tail _ hc))

theorem ne_of_continues {b : UInt8} (h : 0x80 ≤ b.toNat) : b ≠ 0x22 ∧ b ≠ 0x5c := by
  constructor
  · rintro rfl
    exact absurd h (by decide)
  · rintro rfl
    exact absurd h (by decide)

/-- Only a quote and a backslash have bytes that mean something inside a
literal. -/
theorem ne_of_mem_utf8EncodeChar {c : Char} (hQuote : c ≠ '"') (hBackslash : c ≠ '\\') :
    ∀ b ∈ String.utf8EncodeChar c, b ≠ 0x22 ∧ b ≠ 0x5c := by
  obtain ⟨lead, more, hBytes, hLead, hMore⟩ := Utf8.utf8EncodeChar_cases c
  have hNe : ∀ d : Char, c ≠ d → d.toNat < 0x80 → lead.toNat ≠ d.toNat := by
    intro d hd hSmall hSame
    have hNat : c.toNat = d.toNat := by rw [← hLead (by omega), hSame]
    exact hd (Char.toNat_inj.mp hNat)
  intro b hb
  rw [hBytes] at hb
  obtain rfl | hb := List.mem_cons.mp hb
  · constructor
    · rintro rfl
      exact hNe '"' hQuote (by decide) rfl
    · rintro rfl
      exact hNe '\\' hBackslash (by decide) rfl
  · exact ne_of_continues (hMore b hb)

/-- The bytes of a literal in a script are a literal in markup, with the same
value. A backslash guards the first byte of a character only; the bytes after
it need no guard. -/
theorem literalBody_encode {body : List Char} (h : IsLiteralBody body) :
    Markup.LiteralBody (body.flatMap String.utf8EncodeChar)
      ((unescape body).flatMap String.utf8EncodeChar) := by
  induction h with
  | nil => exact .nil
  | plain hQuote hBackslash hLine _ ih =>
      rw [unescape_cons hBackslash, List.flatMap_cons, List.flatMap_cons]
      exact literalBody_append (ne_of_mem_utf8EncodeChar hQuote hBackslash) ih
  | @escaped c body hLine _ ih =>
      obtain ⟨lead, more, hBytes, -, hMore⟩ := Utf8.utf8EncodeChar_cases c
      rw [unescape, List.flatMap_cons, List.flatMap_cons, List.flatMap_cons, hBytes]
      exact .escaped lead (literalBody_append (fun b hb => ne_of_continues (hMore b hb)) ih)

/-- What may stand between quotes in a script may stand there in markup, and
means the text freed from its escapes. -/
theorem literalBody_text {text : String} (h : IsLiteralBody text.toList) :
    Markup.LiteralBody (Utf8.encode text) (Utf8.encode (unescaped text)) := by
  rw [unescaped, Utf8.encode_ofList]
  exact literalBody_encode h

/-! ### An element as markup -/

/-- An attribute as the markup language knows it. -/
def handedAttribute (entry : String × String) : Markup.Attribute :=
  ⟨Utf8.encode entry.1, Utf8.encode (unescaped entry.2)⟩

/-- An element without content as the markup language knows it. -/
def handedElement (tag : String) (attributes : Table String) : Markup.Item :=
  .element (Utf8.encode tag) (attributes.entries.map handedAttribute) []

/-- An entry that can be handed over. -/
structure IsAttribute (entry : String × String) : Prop where
  key : IsElementName entry.1
  value : IsLiteralBody entry.2.toList

/-- The source of one attribute. -/
def entrySource (entry : String × String) : String :=
  entry.1 ++ ":\"" ++ entry.2 ++ "\""

/-- The lexemes of an attribute are laid out in its source. -/
theorem laid_entry {entry : String × String} {lexemes : List Lexeme} {source : Bytes}
    (h : IsAttribute entry) (hRest : Laid lexemes source) :
    Laid ((handedAttribute entry).lexemes ++ lexemes)
      (Utf8.encode (entrySource entry) ++ source) := by
  have hLiteral := literalBody_text h.value
  have hOpen : Utf8.encode ":\"" = [0x3a, 0x22] := by decide
  have hClose : Utf8.encode "\"" = [0x22] := by decide
  have hSource : Utf8.encode (entrySource entry) ++ source =
      Utf8.encode entry.1 ++ ([0x3a] ++ (0x22 :: (Utf8.encode entry.2 ++ [0x22]) ++ source)) := by
    simp [entrySource, Utf8.encode_append, hOpen, hClose]
  have hLexemes : (handedAttribute entry).lexemes ++ lexemes =
      .name (Utf8.encode entry.1) :: .colon :: .literal (Utf8.encode (unescaped entry.2)) ::
        lexemes := by
    simp [handedAttribute, Markup.Attribute.lexemes]
  rw [hSource, hLexemes]
  refine .cons (.name (isName_encode h.key)) (fun _ => ?_)
    (.cons .colon ?_ (.cons (.literal hLiteral) ?_ hRest))
  · exact Markup.endsWord_cons (by decide) _
  · simp [Lexeme.colon]
  · simp [Lexeme.literal]

/-- The attributes of an element, with the commas between them. -/
theorem laid_entries {entries : List (String × String)} {lexemes : List Lexeme} {source : Bytes}
    (h : ∀ entry ∈ entries, IsAttribute entry) (hRest : Laid lexemes source) :
    Laid (Markup.headLexemes false (entries.map handedAttribute) ++ lexemes)
      (Utf8.encode (", ".intercalate (entries.map entrySource)) ++ source) := by
  induction entries with
  | nil => exact hRest
  | cons entry others ih =>
      have hEntry := h entry (.head _)
      have hOthers := ih fun e he => h e (.tail _ he)
      cases others with
      | nil => simpa [Markup.headLexemes] using laid_entry hEntry hRest
      | cons next others =>
          have hBetween : Utf8.encode ", " = [0x2c, 0x20] := by decide
          have hSpaced : Laid (.comma :: _) ([0x2c] ++ 0x20 :: _) :=
            .cons .comma (by simp [Lexeme.comma]) (.blank (by decide) hOthers)
          simpa [Markup.headLexemes, Utf8.encode_append, hBetween] using laid_entry hEntry hSpaced

theorem encode_attributeSource_cons (entry : String × String) (others : List (String × String)) :
    Utf8.encode (attributeSource ⟨entry :: others⟩) =
      0x20 :: Utf8.encode (", ".intercalate ((entry :: others).map entrySource)) := by
  have hBlank : Utf8.encode " " = [0x20] := by decide
  have hSource : attributeSource ⟨entry :: others⟩ =
      " " ++ ", ".intercalate ((entry :: others).map entrySource) := rfl
  rw [hSource, Utf8.encode_append, hBlank, List.singleton_append]

/-- The lexemes of all attributes are laid out in the source of the table. -/
theorem laid_attributeSource {attributes : Table String} {lexemes : List Lexeme} {source : Bytes}
    (h : ∀ entry ∈ attributes.entries, IsAttribute entry) (hRest : Laid lexemes source) :
    Laid (Markup.headLexemes false (attributes.entries.map handedAttribute) ++ lexemes)
      (Utf8.encode (attributeSource attributes) ++ source) := by
  obtain ⟨entries⟩ := attributes
  cases entries with
  | nil => exact hRest
  | cons entry others =>
      rw [encode_attributeSource_cons]
      exact .blank (by decide) (laid_entries h hRest)

/-- The tag is over where the attributes begin. -/
theorem endsWord_attributeSource (attributes : Table String) (source : Bytes) :
    EndsWord (Utf8.encode (attributeSource attributes) ++ 0x20 :: source) := by
  obtain ⟨entries⟩ := attributes
  cases entries with
  | nil => exact Markup.endsWord_cons (by decide) source
  | cons entry others =>
      rw [encode_attributeSource_cons]
      exact Markup.endsWord_cons (by decide) _

/-- The source of an element without content. The lone backslash behind the
attributes and the hash that follows it are the closing mark. -/
theorem laid_elementSource {tag : String} {attributes : Table String} (hTag : IsElementName tag)
    (hAttributes : ∀ entry ∈ attributes.entries, IsAttribute entry) (frames : List Frame) :
    ∃ source, elementSource frames tag attributes [] = .ok source ∧
      Laid ((handedElement tag attributes).lexemes (fun _ => false) []) (Utf8.encode source) := by
  have hName := isName_encode hTag
  have hHash : Utf8.encode "#" = [0x23] := by decide
  have hMark : Utf8.encode " \\" = [0x20, 0x5c] := by decide
  have hNone : Utf8.encode "" = [] := rfl
  have hClosing : Laid [.closingHash, .name (Utf8.encode tag)]
      (0x20 :: ([0x5c, 0x23] ++ (Utf8.encode tag ++ []))) :=
    .blank (by decide)
      (.cons .closingHash (by simp [Lexeme.closingHash])
        (.cons (.name hName) (by simp [EndsWord]) .nil))
  have hLaid : Laid (.hash :: .name (Utf8.encode tag) :: _) ([0x23] ++ (Utf8.encode tag ++ _)) :=
    .cons .hash (by simp [Lexeme.hash])
      (.cons (.name hName) (fun _ => endsWord_attributeSource attributes _)
      (laid_attributeSource hAttributes hClosing))
  refine ⟨_, by rw [elementSource, contentSource]; rfl, ?_⟩
  simpa [handedElement, Markup.Item.lexemes, Markup.Item.lexemesAll, Utf8.encode_append, hHash,
    hMark, hNone]
    using hLaid

/-! ### The lines of an element -/

/-- The lines an element without content leaves on the console: it is entered,
its attributes are named in their order, and it is left. -/
def elementLines (tag : String) (attributes : Table String) : List String :=
  ["Entering element <" ++ tag ++ ">"] ++
    attributes.entries.map (fun (key, value) => "  [Attribute] " ++ key ++ " = " ++
      unescaped value) ++
    ["Exiting element <" ++ tag ++ ">"]

/-- Lines as they are printed. -/
def printed (lines : List String) : String :=
  String.join (lines.map (· ++ "\n"))

/-- The bytes of printed lines are the lines of markup, one after the other. -/
theorem encode_printed (lines : List String) :
    Utf8.encode (printed lines) =
      (lines.map fun line => Markup.lineOf [Utf8.encode line]).flatten := by
  have hEnd : Utf8.encode "\n" = [0x0a] := by decide
  have hLine : ∀ line, Utf8.encode (line ++ "\n") = Markup.lineOf [Utf8.encode line] := by
    intro line
    rw [Utf8.encode_append, hEnd, Markup.lineOf, List.flatten_singleton]
  rw [printed, Utf8.encode_join, List.map_map]
  exact congrArg List.flatten (List.map_congr_left fun line _ => hLine line)

/-- A walk through an element without content prints the lines of the
element. -/
theorem walk_handedElement (tag : String) (attributes : Table String) (symbols : Markup.Symbols) :
    ((handedElement tag attributes).walk symbols).output =
      Utf8.encode (printed (elementLines tag attributes)) := by
  rw [encode_printed, elementLines, handedElement, Markup.Item.walk]
  have hTagLine : ∀ a b : String, Markup.lineOf [Utf8.encode a, Utf8.encode tag, Utf8.encode b] =
      Markup.lineOf [Utf8.encode (a ++ tag ++ b)] := by
    intro a b
    simp [Markup.lineOf, Utf8.encode_append]
  have hEntryLine : ∀ (a b : String) (entry : String × String),
      Markup.lineOf [Utf8.encode a, (handedAttribute entry).key, Utf8.encode b,
        (handedAttribute entry).value] =
        Markup.lineOf [Utf8.encode (a ++ entry.1 ++ b ++ unescaped entry.2)] := by
    intro a b entry
    simp [Markup.lineOf, handedAttribute, Utf8.encode_append]
  simp only [Markup.Item.walkAll, hTagLine, List.map_append, List.map_map, List.map_cons,
    List.map_nil, Function.comp_def, hEntryLine, List.flatten_append, List.flatten_singleton,
    List.append_nil]

/-- Source that can be read leaves what the walk prints, and nothing on the
error channel. -/
theorem interpretMarkup_of_read {m : Machine} {source : String} {lines : List String}
    {item : Markup.Item} (hRead : Markup.Item.read (Utf8.encode source) = .ok item)
    (hWalk : (item.walk []).output = Utf8.encode (printed lines)) :
    m.interpretMarkup source = { m with output := m.output ++ printed lines } := by
  have hErrors : m.errors ++ Utf8.display [] = m.errors := by
    rw [show Utf8.display [] = "" from Utf8.display_encode "", String.append_empty]
  simp only [Machine.interpretMarkup, Markup.interpret, hRead, hWalk, Utf8.display_encode, hErrors]

/-- An element without content whose names and literals the markup language can
take is walked through to its end: no fault, nothing on the error channel, and
no change but the lines of the element. -/
theorem execute_element_attributes (rounds : Nat) (tag : String) (attributes : Table String)
    (m : Machine) (hTag : IsElementName tag)
    (hAttributes : ∀ entry ∈ attributes.entries, IsAttribute entry) :
    execute rounds (.element tag attributes []) m =
      ({ m with output := m.output ++ printed (elementLines tag attributes) }, .done) := by
  obtain ⟨source, hSource, hLaid⟩ := laid_elementSource hTag hAttributes m.frames
  have hForm := Markup.elementForm_of_itemForm
    (Markup.itemForm_lexemes (fun _ => false) [] (handedElement tag attributes))
  have hRead := Markup.read_of_laid hForm hLaid
  rw [execute, hSource]
  dsimp only
  rw [interpretMarkup_of_read hRead (walk_handedElement tag attributes [])]

/-- Two attributes: a value of a two-byte letter and a guarded quote, and an
empty value. -/
theorem execute_element_attributes_quote :
    let attributes : Table String := ⟨[("title", "é\\\""), ("_b1", "")]⟩
    IsElementName "p" ∧ (∀ entry ∈ attributes.entries, IsAttribute entry) ∧
      execute 0 (.element "p" attributes []) .fresh =
        (⟨[.empty], .empty,
          "Entering element <p>\n  [Attribute] title = é\"\n  [Attribute] _b1 = \nExiting element <p>\n", ""⟩,
          .done) := by
  intro attributes
  have hTag : IsElementName "p" := ⟨⟨'p', [], rfl, rfl, by simp⟩, by decide, by decide⟩
  have hTitle : IsAttribute ("title", "é\\\"") :=
    ⟨⟨⟨'t', ['i', 't', 'l', 'e'], rfl, rfl, List.all_eq_true.mp rfl⟩, by decide, by decide⟩,
      .plain (by decide) (by decide) (by decide) (.escaped (by decide) .nil)⟩
  have hEmpty : IsAttribute ("_b1", "") :=
    ⟨⟨⟨'_', ['b', '1'], rfl, rfl, List.all_eq_true.mp rfl⟩, by decide, by decide⟩, .nil⟩
  have hAttributes : ∀ entry ∈ attributes.entries, IsAttribute entry := by
    simpa [attributes] using ⟨hTitle, hEmpty⟩
  exact ⟨hTag, hAttributes, execute_element_attributes 0 "p" attributes .fresh hTag hAttributes⟩

end PageScript.Run
