import PageScript.Markup.Html
import PageScript.Proofs.Markup.Lexing

/-! Where the tags of a document written as HTML come from. Texts and attribute
values are escaped after placeholders have been replaced, so neither they nor
the values of symbols can open a tag. What a definition defines its name as is
written as it stands. Main statement: the number of opening brackets in the
HTML of a document. -/
namespace PageScript.Markup

/-- The byte that opens a tag. -/
def lessThan : UInt8 := 0x3c

/-- A word that begins with a letter or an underscore and goes on with letters,
digits and underscores. -/
def IsIdentifier (word : Bytes) : Prop :=
  ∃ first rest, word = first :: rest ∧ Lexer.isNameStart first = true ∧ ∀ b ∈ rest,
    Lexer.isNamePart b = true

theorem IsIdentifier.isNamePart {word : Bytes} (h : IsIdentifier word) :
    ∀ b ∈ word, Lexer.isNamePart b = true := by
  obtain ⟨first, rest, rfl, hFirst, hRest⟩ := h
  exact List.forall_mem_cons.mpr ⟨Lexer.isNamePart_of_isNameStart hFirst, hRest⟩

/-- A byte that cannot be in a name is in no identifier. -/
theorem IsIdentifier.notMem {word : Bytes} (h : IsIdentifier word) {b : UInt8}
    (hb : Lexer.isNamePart b = false) : b ∉ word := by
  intro hMem
  rw [h.isNamePart b hMem] at hb
  cases hb

namespace Item

mutual

/-- An item and all the items in it, in the order in which they begin. -/
def all : Item → List Item
  | .element tag attributes content => .element tag attributes content :: allIn content
  | .shown message => [.shown message]
  | .definition name expression => [.definition name expression]

def allIn : List Item → List Item
  | [] => []
  | item :: rest => item.all ++ allIn rest

end

/-- The tag and the keys of an element, or the name that a definition
defines. -/
def ownNames : Item → List Bytes
  | .element tag attributes _ => tag :: attributes.map Attribute.key
  | .shown _ => []
  | .definition name _ => [name]

def isElement : Item → Bool
  | .element _ _ _ => true
  | _ => false

/-- What a definition defines its name as. -/
def expression? : Item → Option Bytes
  | .definition _ expression => some expression
  | _ => none

/-- Every tag, key and defined name of some items. -/
def namesOf (items : List Item) : List Bytes := items.flatMap ownNames

/-- How many of the items are elements. -/
def elementsOf (items : List Item) : Nat := items.countP isElement

/-- What the definitions among the items define their names as. -/
def expressionsOf (items : List Item) : List Bytes := items.filterMap expression?

/-- The names in an element are its tag, the keys of its attributes and the
names in its content. -/
theorem forall_names_element {P : Bytes → Prop} {tag : Bytes} {attributes : List Attribute}
    {content : List Item} :
    (∀ word ∈ namesOf (Item.element tag attributes content).all, P word) ↔
      (P tag ∧ ∀ a ∈ attributes, P a.key) ∧ ∀ word ∈ namesOf (allIn content),
        P word := by
  simp only [all, namesOf, ownNames, List.flatMap_cons, List.forall_mem_append,
    List.forall_mem_cons, List.forall_mem_map]

end Item

/-! ### Escaped texts -/

theorem escape_append (s t : Bytes) : escape (s ++ t) = escape s ++ escape t :=
  List.flatMap_append

/-- A byte is escaped as one of the four entities, or it stays. -/
theorem escapeByte_cases (b : UInt8) :
    b = 0x26 ∧ escapeByte b = [0x26, 0x61, 0x6d, 0x70, 0x3b] ∨
    b = 0x3c ∧ escapeByte b = [0x26, 0x6c, 0x74, 0x3b] ∨
    b = 0x3e ∧ escapeByte b = [0x26, 0x67, 0x74, 0x3b] ∨
    b = 0x22 ∧ escapeByte b = [0x26, 0x71, 0x75, 0x6f, 0x74, 0x3b] ∨
    b ∉ [0x26, 0x3c, 0x3e, 0x22] ∧ escapeByte b = [b] := by
  unfold escapeByte
  split
  · exact .inl ⟨by assumption, by decide⟩
  split
  · exact .inr (.inl ⟨by assumption, by decide⟩)
  split
  · exact .inr (.inr (.inl ⟨by assumption, by decide⟩))
  split
  · exact .inr (.inr (.inr (.inl ⟨by assumption, by decide⟩)))
  · exact .inr (.inr (.inr (.inr ⟨by simp [*], rfl⟩)))

/-- No bracket and no quote is left in an escaped text. -/
theorem notMem_escape {b : UInt8} (h : b = 0x3c ∨ b = 0x3e ∨ b = 0x22) (raw : Bytes) :
    b ∉ escape raw := by
  intro hMem
  obtain ⟨c, -, hc⟩ := List.mem_flatMap.mp hMem
  obtain ⟨-, hBytes⟩ | ⟨-, hBytes⟩ | ⟨-, hBytes⟩ | ⟨-, hBytes⟩ |
      ⟨hPlain, hBytes⟩ := escapeByte_cases c
  all_goals rw [hBytes] at hc
  · rcases h with rfl | rfl | rfl <;> revert hc <;> decide
  · rcases h with rfl | rfl | rfl <;> revert hc <;> decide
  · rcases h with rfl | rfl | rfl <;> revert hc <;> decide
  · rcases h with rfl | rfl | rfl <;> revert hc <;> decide
  · cases List.mem_singleton.mp hc
    rcases h with rfl | rfl | rfl <;> exact hPlain (by decide)

/-! ### The bytes of a document -/

/-- An attribute is a blank, the key, and the value between quotes, which is
escaped after its placeholders have been replaced. -/
theorem Attribute.html_eq (symbols : Symbols) (a : Attribute) :
    a.html symbols = 0x20 :: (a.key ++ 0x3d :: 0x22 ::
      (escape (substitute symbols a.value) ++ [0x22])) := by
  have hBlank : Utf8.encode " " = [0x20] := by decide
  have hOpen : Utf8.encode "=\"" = [0x3d, 0x22] := by decide
  have hClose : Utf8.encode "\"" = [0x22] := by decide
  simp [Attribute.html, hBlank, hOpen, hClose]

/-- The attributes of an element inside its opening tag. -/
def attributesHtml (symbols : Symbols) (attributes : List Attribute) : Bytes :=
  (attributes.map (Attribute.html symbols)).flatten

/-- An element is its opening tag with the attributes, its content and its
closing tag. -/
theorem Item.html_element (symbols : Symbols) (tag : Bytes) (attributes : List Attribute)
    (content : List Item) :
    (Item.element tag attributes content).html symbols =
      0x3c :: (tag ++ (attributesHtml symbols attributes ++ 0x3e :: (Item.htmlAll symbols content ++
        0x3c :: 0x2f :: (tag ++ [0x3e])))) := by
  have hOpen : Utf8.encode "<" = [0x3c] := by decide
  have hEnd : Utf8.encode ">" = [0x3e] := by decide
  have hClose : Utf8.encode "</" = [0x3c, 0x2f] := by decide
  simp [Item.html, attributesHtml, hOpen, hEnd, hClose]

theorem Item.html_shown (symbols : Symbols) (message : Bytes) :
    (Item.shown message).html symbols = escape (substitute symbols message) := by
  rw [Item.html]

theorem Item.htmlAll_cons (symbols : Symbols) (item : Item) (rest : List Item) :
    Item.htmlAll symbols (item :: rest) = item.html symbols ++ Item.htmlAll symbols rest := by
  rw [Item.htmlAll]

/-! ### Counting -/

section counting

variable {symbols : Symbols}

theorem count_escape (raw : Bytes) : (escape raw).count lessThan = 0 :=
  List.count_eq_zero.mpr (notMem_escape (.inl rfl) raw)

theorem IsIdentifier.count_eq_zero {word : Bytes} (h : IsIdentifier word) :
    word.count lessThan = 0 :=
  List.count_eq_zero.mpr (h.notMem (by decide))

/-- An attribute whose key is an identifier opens no tag, whatever its value
is. -/
theorem count_attribute {a : Attribute} (h : IsIdentifier a.key) :
    (a.html symbols).count lessThan = 0 := by
  have hBlank : (0x20 == lessThan) = false := by decide
  have hEquals : (0x3d == lessThan) = false := by decide
  have hQuote : (0x22 == lessThan) = false := by decide
  simp only [Attribute.html_eq, List.count_cons, List.count_append, h.count_eq_zero, count_escape,
    List.count_nil, hBlank, hEquals, hQuote, Bool.false_eq_true, if_false]

/-- Attributes whose keys are identifiers open no tag. -/
theorem count_attributesHtml {attributes : List Attribute}
    (h : ∀ a ∈ attributes, IsIdentifier a.key) :
    (attributesHtml symbols attributes).count lessThan = 0 := by
  rw [List.count_eq_zero]
  intro hMem
  obtain ⟨_, hHtml, hMem⟩ := List.mem_flatten.mp hMem
  obtain ⟨a, ha, rfl⟩ := List.mem_map.mp hHtml
  exact List.count_eq_zero.mp (count_attribute (h a ha)) hMem

/-- A definition opens a tag of its own, and whatever its expression opens:
this is not escaped. -/
theorem count_definition {name : Bytes} (h : IsIdentifier name) (expression : Bytes) :
    ((Item.definition name expression).html symbols).count lessThan =
      1 + expression.count lessThan := by
  have hOpen : (Utf8.encode "<!-- define ").count lessThan = 1 := by decide
  have hEquals : (Utf8.encode " = ").count lessThan = 0 := by decide
  have hClose : (Utf8.encode " -->").count lessThan = 0 := by decide
  simp only [Item.html, List.count_append, hOpen, hEquals, hClose, h.count_eq_zero]
  omega

/-- Two brackets for each element, one for each definition, and those in what
is defined. -/
def Item.bracketsOf (items : List Item) : Nat :=
  2 * elementsOf items + (expressionsOf items).length + (expressionsOf items).flatten.count lessThan

/-- The brackets that are due to items and others add up. -/
theorem Item.bracketsOf_append (items others : List Item) :
    bracketsOf (items ++ others) = bracketsOf items + bracketsOf others := by
  simp only [bracketsOf, elementsOf, expressionsOf, List.countP_append, List.filterMap_append,
    List.length_append, List.flatten_append, List.count_append]
  omega

mutual

/-- The opening brackets in the HTML of an item are those which its elements
and definitions are due. An element is due two, a definition one and what its
expression holds, and a shown text none. -/
theorem count_html (item : Item) (h : ∀ word ∈ Item.namesOf item.all, IsIdentifier word) :
    (item.html symbols).count lessThan = Item.bracketsOf item.all := by
  cases item with
  | element tag attributes content =>
      obtain ⟨⟨hTag, hKeys⟩, hContent⟩ := Item.forall_names_element.mp h
      have hInside := count_htmlAll content hContent
      have hOwn : Item.bracketsOf [.element tag attributes content] = 2 := rfl
      rw [Item.all, ← List.singleton_append, Item.bracketsOf_append, hOwn, ← hInside,
        Item.html_element]
      have hOpen : (0x3c == lessThan) = true := by decide
      have hSlash : (0x2f == lessThan) = false := by decide
      have hEnd : (0x3e == lessThan) = false := by decide
      simp only [List.count_cons, List.count_append, hTag.count_eq_zero, count_attributesHtml hKeys,
        hOpen, hSlash, hEnd, List.count_nil, Bool.false_eq_true, if_true, if_false]
      omega
  | shown message =>
      rw [Item.html_shown, count_escape]
      rfl
  | definition name expression =>
      have hName : IsIdentifier name := h name (by simp [Item.all, Item.namesOf, Item.ownNames])
      rw [count_definition hName]
      simp [Item.all, Item.bracketsOf, Item.elementsOf, Item.isElement, Item.expressionsOf,
        Item.expression?]

/-- The opening brackets in the HTML of items are those which the elements and
definitions among them are due. -/
theorem count_htmlAll (items : List Item)
    (h : ∀ word ∈ Item.namesOf (Item.allIn items), IsIdentifier word) :
    (Item.htmlAll symbols items).count lessThan = Item.bracketsOf (Item.allIn items) := by
  cases items with
  | nil =>
      rw [Item.htmlAll, Item.allIn]
      rfl
  | cons item rest =>
      rw [Item.allIn, Item.namesOf, List.flatMap_append, List.forall_mem_append] at h
      rw [Item.htmlAll_cons, Item.allIn, List.count_append, Item.bracketsOf_append,
        count_html item h.1, count_htmlAll rest h.2]

end

end counting

/-- In a document whose names are identifiers, each element opens two brackets
and each definition one. Attribute values, shown texts and the values of
symbols add none; what a definition defines its name as adds all that it
has. -/
theorem count_lessThan_html (symbols : Symbols) (root : Item)
    (hNames : ∀ word ∈ Item.namesOf root.all, IsIdentifier word) :
    (root.html symbols).count lessThan =
      2 * Item.elementsOf root.all + (Item.expressionsOf root.all).length +
        (Item.expressionsOf root.all).flatten.count lessThan ∧
    ((root.html symbols).count lessThan =
      2 * Item.elementsOf root.all + (Item.expressionsOf root.all).length ↔
      ∀ expression ∈ Item.expressionsOf root.all, lessThan ∉ expression) := by
  have hCount : (root.html symbols).count lessThan = _ := count_html root hNames
  refine ⟨hCount, ?_⟩
  rw [hCount, Item.bracketsOf, Nat.add_eq_left, List.count_eq_zero, List.mem_flatten]
  simp only [not_exists, not_and]

/-- The element `p` with these attributes and this content. -/
def paragraph (attributes : List Attribute) (content : List Item) :
    Item := .element [0x70] attributes content

theorem isIdentifier_letter {b : UInt8} (h : Lexer.isNameStart b = true) : IsIdentifier [b] :=
  ⟨b, [], rfl, h, List.forall_mem_nil _⟩

/-- Brackets in an attribute, in the symbol that it names and in a shown
text. -/
theorem count_lessThan_html_bracketed :
    let root := paragraph [⟨[0x6b], [0x7b, 0x76, 0x7d, 0x3c]⟩]
      [.shown [0x3c, 0x62, 0x3e], .definition [0x78] [0x31]]
    (∀ word ∈ Item.namesOf root.all, IsIdentifier word) ∧
      (root.html [([0x76], [0x3c])]).count lessThan = 3 := by
  intro root
  have hNames : ∀ word ∈ Item.namesOf root.all, IsIdentifier word := by
    intro word hWord
    have hMem : word ∈ [[0x70], [0x6b], [0x78]] := hWord
    simp only [List.mem_cons, List.not_mem_nil, or_false] at hMem
    rcases hMem with rfl | rfl | rfl <;> exact isIdentifier_letter (by decide)
  exact ⟨hNames, (count_lessThan_html _ root hNames).1⟩

/-- A bracket in what a definition defines its name as is one too many. -/
theorem count_html_defined_bracket :
    let root := paragraph [] [.definition [0x78] [0x3c]]
    (∀ word ∈ Item.namesOf root.all, IsIdentifier word) ∧
      (root.html []).count lessThan ≠
        2 * Item.elementsOf root.all + (Item.expressionsOf root.all).length := by
  intro root
  have hNames : ∀ word ∈ Item.namesOf root.all, IsIdentifier word := by
    intro word hWord
    have hMem : word ∈ [[0x70], [0x78]] := hWord
    simp only [List.mem_cons, List.not_mem_nil, or_false] at hMem
    rcases hMem with rfl | rfl <;> exact isIdentifier_letter (by decide)
  refine ⟨hNames, ?_⟩
  rw [count_html root hNames]
  decide

end PageScript.Markup
