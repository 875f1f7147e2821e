import PageScript.Proofs.Markup.Lexing

/-! Documents written as source. Main statement: reading a written document
gives it back, whatever bytes its texts hold, however its lexemes are spaced,
and wherever the optional terminators stand. -/
namespace PageScript.Markup

namespace Lexeme

def hash : Lexeme := ⟨.hash, [0x23]⟩

def closingHash : Lexeme := ⟨.closingHash, [0x5c, 0x23]⟩

def comma : Lexeme := ⟨.comma, [0x2c]⟩

def colon : Lexeme := ⟨.colon, [0x3a]⟩

def equals : Lexeme := ⟨.equals, [0x3d]⟩

def terminator : Lexeme := ⟨.terminator, [0x5c, 0x5c]⟩

def showWord : Lexeme := ⟨.showWord, Lexer.showSpelling⟩

def define : Lexeme := ⟨.define, Lexer.defineSpelling⟩

def name (word : Bytes) : Lexeme := ⟨.identifier, word⟩

def literal (value : Bytes) : Lexeme := ⟨.text, value⟩

/-- A byte inside a literal. A quote and a backslash take a backslash before
them. -/
def guarded (b : UInt8) : Bytes :=
  if b = 0x22 ∨ b = 0x5c then [0x5c, b] else [b]

/-- The bytes of a lexeme: those of its text, in quotes for a literal. -/
def spelling (l : Lexeme) : Bytes :=
  if l.kind = .text then 0x22 :: (l.text.flatMap guarded ++ [0x22]) else l.text

end Lexeme

def Attribute.lexemes (a : Attribute) : List Lexeme :=
  [.name a.key, .colon, .literal a.value]

/-- The head of a body: attributes with commas between them, and a terminator
if one is wanted. -/
def headLexemes (terminated : Bool) : List Attribute → List Lexeme
  | [] => []
  | first :: others => first.lexemes ++ others.flatMap (fun a => .comma :: a.lexemes) ++
      (if terminated then [.terminator] else [])

mutual

/-- The lexemes of an item. Its place in the document is the list of the
positions that lead to it, the innermost first; `ends` says at which places the
attributes are followed by a terminator. -/
def Item.lexemes (ends : List Nat → Bool) (place : List Nat) : Item → List Lexeme
  | .element tag attributes content =>
    .hash :: .name tag :: (headLexemes (ends place) attributes ++
      (Item.lexemesAll ends place 0 content ++ [.closingHash, .name tag]))
  | .shown message => [.showWord, .literal message, .terminator]
  | .definition name expression => [.define, .name name, .equals, .literal expression, .terminator]

/-- The lexemes of the items inside a place, from a position on. -/
def Item.lexemesAll (ends : List Nat → Bool) (place : List Nat) (position : Nat) :
    List Item → List Lexeme
  | [] => []
  | item :: rest =>
    item.lexemes ends (position :: place) ++ Item.lexemesAll ends place (position + 1) rest

end

/-- Words in order, with at least one blank between any two. -/
inductive Spaced : List Bytes → Bytes → Prop where
  | one (word : Bytes) : Spaced [word] word
  | cons {words : List Bytes} {gap source : Bytes} (word : Bytes) (hGap : gap ≠ [])
      (hBlank : ∀ b ∈ gap, Lexer.isBlank b = true) (rest : Spaced words source) :
      Spaced (word :: words) (word ++ (gap ++ source))

/-- Every tag, key and defined name of an item is a name. -/
inductive Item.WellNamed : Item → Prop where
  | element {tag : Bytes} {attributes : List Attribute} {content : List Item} (hTag : IsName tag)
      (hKeys : ∀ a ∈ attributes, IsName a.key)
      (hContent : ∀ item ∈ content, Item.WellNamed item) :
      Item.WellNamed (.element tag attributes content)
  | shown (message : Bytes) : Item.WellNamed (.shown message)
  | definition {name : Bytes} (hName : IsName name) (expression : Bytes) :
      Item.WellNamed (.definition name expression)

/-! ### The lexemes of a document are a form of it -/

theorem attributeForm_lexemes (a : Attribute) : AttributeForm a a.lexemes :=
  .mk a.key _ a.value

/-- Attributes that are written with a comma before each are a form of
attributes behind commas. -/
theorem moreForm_lexemes (others : List Attribute) :
    MoreForm others (others.flatMap fun a => .comma :: a.lexemes) := by
  induction others with
  | nil => exact .nil
  | cons a rest ih => exact .cons _ (attributeForm_lexemes a) ih

/-- The lexemes that attributes are written with, with a terminator or without,
are a form of the head of an element. -/
theorem headForm_lexemes (terminated : Bool) (attributes : List Attribute) :
    HeadForm attributes (headLexemes terminated attributes) := by
  cases attributes with
  | nil => exact .none
  | cons first others =>
      have hAll := AttributesForm.mk (attributeForm_lexemes first) (moreForm_lexemes others)
      cases terminated with
      | false => simpa [headLexemes] using HeadForm.plain hAll
      | true => exact .terminated hAll _

mutual

/-- The lexemes that an item is written with are a form of it, wherever the
optional terminators stand. -/
theorem itemForm_lexemes (ends : List Nat → Bool) (place : List Nat) (item : Item) :
    ItemForm item (item.lexemes ends place) := by
  cases item with
  | element tag attributes content =>
      rw [Item.lexemes]
      exact .element (.mk _ tag _ (headForm_lexemes _ attributes)
        (itemsForm_lexemesAll ends place 0 content))
  | shown message =>
      rw [Item.lexemes]
      exact .shown (.mk _ message _)
  | definition name expression =>
      rw [Item.lexemes]
      exact .definition (.mk _ name _ _ (.literal expression))

/-- The lexemes that items are written with are a form of them. -/
theorem itemsForm_lexemesAll (ends : List Nat → Bool) (place : List Nat) (position : Nat)
    (items : List Item) :
    ItemsForm items (Item.lexemesAll ends place position items) := by
  cases items with
  | nil =>
      rw [Item.lexemesAll]
      exact .nil
  | cons item rest =>
      rw [Item.lexemesAll]
      exact .cons (itemForm_lexemes ends (position :: place) item)
        (itemsForm_lexemesAll ends place (position + 1) rest)

end

/-- A form of an element as an item is a form of it as an element. -/
theorem elementForm_of_itemForm {tag : Bytes} {attributes : List Attribute} {content : List Item}
    {form : List Lexeme} (h : ItemForm (.element tag attributes content) form) :
    ElementForm (.element tag attributes content) form := by
  cases h with
  | shown h => cases h
  | definition h => cases h
  | element h => exact h

/-! ### The lexemes of a document can be written -/

/-- A text in which quotes and backslashes are guarded is a literal with this
text for its value. -/
theorem literalBody_guarded (value : Bytes) : LiteralBody (value.flatMap Lexeme.guarded) value := by
  induction value with
  | nil => exact .nil
  | cons b rest ih =>
      rw [List.flatMap_cons, Lexeme.guarded]
      split
      · exact .escaped b ih
      · rename_i hPlain
        rw [not_or] at hPlain
        exact .plain hPlain.1 hPlain.2 ih

/-- A lexeme that is spelled as it should be. -/
def Lexeme.Spelled (l : Lexeme) : Prop := Written l l.spelling

theorem spelled_name {word : Bytes} (h : IsName word) : (Lexeme.name word).Spelled := .name h

theorem spelled_literal (value : Bytes) : (Lexeme.literal value).Spelled :=
  .literal (literalBody_guarded value)

/-- The lexemes that attributes are written with can be spelled, if the keys
are names. A text between quotes can always be spelled, so nothing is asked of
the values. -/
theorem spelled_headLexemes (terminated : Bool) {attributes : List Attribute}
    (h : ∀ a ∈ attributes, IsName a.key) :
    ∀ l ∈ headLexemes terminated attributes, l.Spelled := by
  have hOne : ∀ a ∈ attributes, ∀ l ∈ a.lexemes, l.Spelled := by
    intro a ha l hl
    simp only [Attribute.lexemes, List.mem_cons, List.not_mem_nil, or_false] at hl
    rcases hl with rfl | rfl | rfl
    · exact spelled_name (h a ha)
    · exact .colon
    · exact spelled_literal _
  cases attributes with
  | nil => simp [headLexemes]
  | cons first others =>
      intro l hl
      simp only [headLexemes, List.mem_append, List.mem_flatMap, List.mem_cons] at hl
      rcases hl with (hl | ⟨a, ha, rfl | hl⟩) | hl
      · exact hOne first (.head _) l hl
      · exact .comma
      · exact hOne a (.tail _ ha) l hl
      · cases terminated with
        | false => cases hl
        | true =>
            cases List.mem_singleton.mp hl
            exact .terminator

mutual

/-- The lexemes that an item is written with can be spelled, if the item is
well named. Texts need no condition, since quotes and backslashes in them are
guarded. -/
theorem spelled_lexemes (ends : List Nat → Bool) (place : List Nat) (item : Item)
    (h : item.WellNamed) :
    ∀ l ∈ item.lexemes ends place, l.Spelled := by
  cases h with
  | @element tag attributes content hTag hKeys hContent =>
      intro l hl
      simp only [Item.lexemes, List.mem_cons, List.mem_append, List.not_mem_nil, or_false] at hl
      rcases hl with rfl | rfl | hl | hl | rfl | rfl
      · exact .hash
      · exact spelled_name hTag
      · exact spelled_headLexemes _ hKeys l hl
      · exact spelled_lexemesAll ends place 0 content hContent l hl
      · exact .closingHash
      · exact spelled_name hTag
  | shown message =>
      intro l hl
      simp only [Item.lexemes, List.mem_cons, List.not_mem_nil, or_false] at hl
      rcases hl with rfl | rfl | rfl
      · exact .showWord
      · exact spelled_literal message
      · exact .terminator
  | definition hName expression =>
      intro l hl
      simp only [Item.lexemes, List.mem_cons, List.not_mem_nil, or_false] at hl
      rcases hl with rfl | rfl | rfl | rfl | rfl
      · exact .define
      · exact spelled_name hName
      · exact .equals
      · exact spelled_literal expression
      · exact .terminator

/-- The lexemes that items are written with can be spelled, if the items are
well named. -/
theorem spelled_lexemesAll (ends : List Nat → Bool) (place : List Nat) (position : Nat)
    (items : List Item) (h : ∀ item ∈ items, item.WellNamed) :
    ∀ l ∈ Item.lexemesAll ends place position items, l.Spelled := by
  cases items with
  | nil => simp [Item.lexemesAll]
  | cons item rest =>
      intro l hl
      rw [Item.lexemesAll, List.mem_append] at hl
      rcases hl with hl | hl
      · exact spelled_lexemes ends (position :: place) item (h item (.head _)) l hl
      · exact spelled_lexemesAll ends place (position + 1) rest (fun i hi => h i (.tail _ hi)) l hl

end

/-! ### Blanks between lexemes -/

theorem Laid.blanks {lexemes : List Lexeme} {gap source : Bytes}
    (hGap : ∀ b ∈ gap, Lexer.isBlank b = true) (h : Laid lexemes source) :
    Laid lexemes (gap ++ source) := by
  induction gap with
  | nil => exact h
  | cons b rest ih => exact .blank (hGap b (.head _)) (ih fun c hc => hGap c (.tail _ hc))

theorem endsWord_of_blank {gap : Bytes} (hGap : gap ≠ [])
    (hBlank : ∀ b ∈ gap, Lexer.isBlank b = true) (rest : Bytes) : EndsWord (gap ++ rest) := by
  cases gap with
  | nil => exact absurd rfl hGap
  | cons b gap =>
      refine endsWord_cons ?_ (gap ++ rest)
      cases hPart : Lexer.isNamePart b with
      | false => rfl
      | true =>
          have hNot := Lexer.isBlank_eq_false hPart
          rw [hBlank b (.head _)] at hNot
          cases hNot

/-- Lexemes that can be spelled are laid out in every source that spaces their
spellings. -/
theorem laid_of_spaced {lexemes : List Lexeme} {source : Bytes}
    (hSpelled : ∀ l ∈ lexemes, l.Spelled) (h : Spaced (lexemes.map Lexeme.spelling) source) :
    Laid lexemes source := by
  generalize hWords : lexemes.map Lexeme.spelling = words at h
  induction h generalizing lexemes with
  | one word =>
      simp only [List.map_eq_cons_iff, List.map_eq_nil_iff] at hWords
      obtain ⟨l, _, rfl, rfl, rfl⟩ := hWords
      have hLast : Laid [l] (l.spelling ++ []) := .cons (hSpelled l (.head _)) (fun _ => nofun) .nil
      rwa [List.append_nil] at hLast
  | cons word hGap hBlank rest ih =>
      obtain ⟨l, others, rfl, rfl, hOthers⟩ := List.map_eq_cons_iff.mp hWords
      have hRest := ih (fun k hk => hSpelled k (.tail _ hk)) hOthers
      exact .cons (hSpelled l (.head _)) (fun _ => endsWord_of_blank hGap hBlank _)
        (hRest.blanks hBlank)

/-- A document whose names are names is read back from each way to write it:
with any blanks between its lexemes, and with or without a terminator after the
attributes of each of its elements. -/
theorem read_spaced_lexemes (tag : Bytes) (attributes : List Attribute) (content : List Item)
    (hNames : (Item.element tag attributes content).WellNamed) (ends : List Nat → Bool)
    (source : Bytes)
    (hSource : Spaced (((Item.element tag attributes content).lexemes ends []).map Lexeme.spelling)
      source) :
    Item.read source = .ok (.element tag attributes content) := by
  have hForm := elementForm_of_itemForm (itemForm_lexemes ends [] (.element tag attributes content))
  exact read_of_laid hForm (laid_of_spaced (spelled_lexemes ends [] _ hNames) hSource)

/-- An element with a quote as the value of its attribute, a terminator after
it, and a backslash shown inside; its lexemes stand on lines of their own. -/
theorem read_spaced_lexemes_quote :
    let document : Item := .element [0x61] [⟨[0x6b], [0x22]⟩] [.shown [0x5c]]
    let source : Bytes :=
      [0x23, 0x0a, 0x61, 0x0a, 0x6b, 0x0a, 0x3a, 0x0a, 0x22, 0x5c, 0x22, 0x22, 0x0a, 0x5c, 0x5c,
        0x0a, 0x73, 0x68, 0x6f, 0x77, 0x0a, 0x22, 0x5c, 0x5c, 0x22, 0x0a, 0x5c, 0x5c, 0x0a, 0x5c,
        0x23, 0x0a, 0x61]
    document.WellNamed ∧ Spaced ((document.lexemes (fun _ => true) []).map Lexeme.spelling)
      source ∧
      Item.read source = .ok document := by
  intro document source
  have hTag : IsName [0x61] := ⟨⟨0x61, [], rfl, rfl, by simp⟩, by decide, by decide⟩
  have hKey : IsName [0x6b] := ⟨⟨0x6b, [], rfl, rfl, by simp⟩, by decide, by decide⟩
  have hNames : document.WellNamed := .element hTag (by simpa using hKey) (by simpa using .shown _)
  have hLine : ∀ {words : List Bytes} {source : Bytes} (word : Bytes), Spaced words source →
      Spaced (word :: words) (word ++ ([0x0a] ++ source)) :=
    fun word h => .cons word (by decide) (List.all_eq_true.mp rfl) h
  have hSource : Spaced ((document.lexemes (fun _ => true) []).map Lexeme.spelling) source :=
    hLine [0x23]
      (hLine [0x61] (hLine [0x6b] (hLine [0x3a] (hLine [0x22, 0x5c, 0x22, 0x22] (hLine [0x5c, 0x5c]
      (hLine Lexer.showSpelling (hLine [0x22, 0x5c, 0x5c, 0x22]
        (hLine [0x5c, 0x5c] (hLine [0x5c, 0x23]
        (.one [0x61]))))))))))
  exact ⟨hNames, hSource, read_spaced_lexemes _ _ _ hNames _ _ hSource⟩

end PageScript.Markup
