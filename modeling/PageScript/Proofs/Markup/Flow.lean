import PageScript.Proofs.Markup.Injection
import PageScript.Proofs.Text.Span

/-! Documents read back from their HTML. Between two tags of HTML there is one
text, so what is read first are texts with elements between them. Main
statement: a document of elements and shown texts is read back from its HTML,
with its placeholders replaced, its empty texts dropped and the texts that
stand side by side joined. An empty text leaves no trace in HTML. -/
namespace PageScript.Markup

/-- The content of an element: a text, and behind it nothing more, or an
element with all that follows it. Between two tags there is always one text,
which may be empty. -/
inductive Flow where
  | text (t : Bytes)
  | element (before tag : Bytes) (attributes : List Attribute) (inside after : Flow)
  deriving Repr, DecidableEq

namespace Flow

/-- A text in front is joined to the first one. -/
def prepend (t : Bytes) : Flow → Flow
  | text u => text (t ++ u)
  | element before tag attributes inside after => element (t ++ before) tag attributes inside after

/-- Every tag and key is an identifier. -/
inductive WellNamed : Flow → Prop where
  | text (t : Bytes) : WellNamed (text t)
  | element {before tag : Bytes} {attributes : List Attribute} {inside after : Flow}
      (hTag : IsIdentifier tag)
      (hKeys : ∀ a ∈ attributes, IsIdentifier a.key) (hInside : WellNamed inside)
      (hAfter : WellNamed after) :
      WellNamed (element before tag attributes inside after)

theorem WellNamed.prepend {flow : Flow} (h : flow.WellNamed) (t : Bytes) :
    (flow.prepend t).WellNamed := by
  cases h with
  | text u => exact .text (t ++ u)
  | element hTag hKeys hInside hAfter => exact .element hTag hKeys hInside hAfter

end Flow

/-! ### Documents as texts with elements between them -/

/-- The attribute with the placeholders in its value replaced. -/
def Attribute.resolved (symbols : Symbols) (a : Attribute) : Attribute :=
  ⟨a.key, substitute symbols a.value⟩

namespace Item

mutual

/-- The item with the placeholders in its attribute values and shown texts
replaced. -/
def resolved (symbols : Symbols) : Item → Item
  | .element tag attributes content =>
    .element tag (attributes.map (Attribute.resolved symbols)) (resolvedAll symbols content)
  | .shown message => .shown (substitute symbols message)
  | .definition name expression => .definition name expression

def resolvedAll (symbols : Symbols) : List Item → List Item
  | [] => []
  | item :: rest => item.resolved symbols :: resolvedAll symbols rest

end

/-- A text that shows nothing. -/
def isEmptyText : Item → Bool
  | .shown message => message.isEmpty
  | _ => false

mutual

/-- The item without the empty texts in it. -/
def pruned : Item → Item
  | .element tag attributes content => .element tag attributes (prunedAll content)
  | .shown message => .shown message
  | .definition name expression => .definition name expression

def prunedAll : List Item → List Item
  | [] => []
  | item :: rest =>
    if item.isEmptyText then prunedAll rest else item.pruned :: prunedAll rest

end

/-- Put an item in front of others. A text is joined to a text that it comes to
stand beside. -/
def attach : Item → List Item → List Item
  | .shown t, .shown u :: rest => .shown (t ++ u) :: rest
  | item, rest => item :: rest

mutual

/-- The item with the texts joined that stand side by side in it. -/
def joined : Item → Item
  | .element tag attributes content => .element tag attributes (joinedAll content)
  | .shown message => .shown message
  | .definition name expression => .definition name expression

def joinedAll : List Item → List Item
  | [] => []
  | item :: rest => attach item.joined (joinedAll rest)

end

mutual

/-- The item in front of what follows it. A definition is no part of the
content. -/
def before : Item → Flow → Flow
  | .element tag attributes content, after => .element [] tag attributes (flow content) after
  | .shown message, after => after.prepend message
  | .definition _ _, after => after

/-- The items as texts with elements between them. -/
def flow : List Item → Flow
  | [] => .text []
  | item :: rest => item.before (flow rest)

end

end Item

/-! ### Reading HTML -/

namespace Flow

/-- The four entities become bytes again. -/
def unescape : Bytes → Bytes
  | 0x26 :: 0x61 :: 0x6d :: 0x70 :: 0x3b :: rest => 0x26 :: unescape rest
  | 0x26 :: 0x6c :: 0x74 :: 0x3b :: rest => 0x3c :: unescape rest
  | 0x26 :: 0x67 :: 0x74 :: 0x3b :: rest => 0x3e :: unescape rest
  | 0x26 :: 0x71 :: 0x75 :: 0x6f :: 0x74 :: 0x3b :: rest => 0x22 :: unescape rest
  | b :: rest => b :: unescape rest
  | [] => []

/-- The attributes up to the end of an opening tag: each one is a blank, a key,
an equals sign and a value in quotes. -/
def readAttributes : Nat → Bytes → Option (List Attribute × Bytes)
  | 0, _ => none
  | bound + 1, bytes =>
    match bytes with
    | 0x3e :: rest => some ([], rest)
    | 0x20 :: named =>
      match named.dropWhile Lexer.isNamePart with
      | 0x3d :: 0x22 :: quoted => do
        let value := unescape (quoted.takeWhile (· != 0x22))
        let (others, rest) ← readAttributes bound ((quoted.dropWhile (· != 0x22)).drop 1)
        return (⟨named.takeWhile Lexer.isNamePart, value⟩ :: others, rest)
      | _ => none
    | _ => none

/-- What follows the closing tag of an element. -/
def closed (tag : Bytes) : Bytes → Option Bytes
  | 0x3c :: 0x2f :: named =>
    if named.takeWhile Lexer.isNamePart = tag then
      match named.dropWhile Lexer.isNamePart with
      | 0x3e :: rest => some rest
      | _ => none
    else none
  | _ => none

/-- Texts and elements up to a closing tag or the end. -/
def readContent : Nat → Bytes → Option (Flow × Bytes)
  | 0, _ => none
  | bound + 1, bytes =>
    let before := unescape (bytes.takeWhile (· != lessThan))
    match bytes.dropWhile (· != lessThan) with
    | [] => some (text before, [])
    | b :: named =>
      if named.head? = some 0x2f then some (text before, b :: named)
      else do
        let tag := named.takeWhile Lexer.isNamePart
        let (attributes, rest) ← readAttributes bound (named.dropWhile Lexer.isNamePart)
        let (inside, rest) ← readContent bound rest
        let rest ← closed tag rest
        let (after, rest) ← readContent bound rest
        return (element before tag attributes inside after, rest)

/-- Read HTML as a whole. Every element takes a byte, so the number of bytes
bounds the depth and the length of the reading. -/
def read (html : Bytes) : Option Flow :=
  match readContent (html.length + 1) html with
  | some (flow, []) => some flow
  | _ => none

/-- The shown text, or nothing if it is empty. -/
def textItems (t : Bytes) : List Item :=
  if t.isEmpty then [] else [.shown t]

/-- The items that the texts and elements stand for. -/
def items : Flow → List Item
  | text t => textItems t
  | element before tag attributes inside after =>
    textItems before ++ .element tag attributes inside.items :: after.items

end Flow

/-- The document that HTML was written from, if it was written from a single
item. -/
def Item.ofHtml (html : Bytes) : Option Item :=
  match (Flow.read html).map Flow.items with
  | some [item] => some item
  | _ => none

/-! ### Writing HTML -/

/-- The attribute inside an opening tag. -/
def Attribute.written (a : Attribute) : Bytes :=
  0x20 :: (a.key ++ 0x3d :: 0x22 :: (escape a.value ++ [0x22]))

theorem Attribute.written_resolved (symbols : Symbols) (a : Attribute) :
    (a.resolved symbols).written = a.html symbols :=
  (a.html_eq symbols).symm

namespace Flow

/-- Texts and elements as HTML. -/
def html : Flow → Bytes
  | text t => escape t
  | element before tag attributes inside after =>
    escape before ++ 0x3c :: (tag ++
      (attributes.flatMap Attribute.written ++ 0x3e :: (inside.html ++
      0x3c :: 0x2f :: (tag ++ 0x3e :: after.html))))

/-- The HTML of a flow with a text in front begins with the text, escaped. -/
theorem html_prepend (t : Bytes) (flow : Flow) : (flow.prepend t).html = escape t ++ flow.html := by
  cases flow with
  | text u => exact escape_append t u
  | element before tag attributes inside after => simp [prepend, html, escape_append]

end Flow

mutual

/-- The HTML of an item and of what comes behind it is the HTML of one flow, in
which they stand side by side. -/
theorem Item.html_before (symbols : Symbols) (item : Item)
    (hPlain : Item.expressionsOf item.all = []) (after : Flow) :
    ((item.resolved symbols).before after).html = item.html symbols ++ after.html := by
  cases item with
  | element tag attributes content =>
      have hInside := Item.html_flow symbols content hPlain
      have hAttributes : (attributes.map (Attribute.resolved symbols)).flatMap Attribute.written =
          attributesHtml symbols attributes := by
        simp only [attributesHtml, List.flatMap_def, List.map_map, Function.comp_def,
          Attribute.written_resolved]
      rw [Item.resolved, Item.before, Flow.html, hInside, hAttributes, Item.html_element]
      simp [escape]
  | shown message => rw [Item.resolved, Item.before, Flow.html_prepend, Item.html_shown]
  | definition name expression => cases hPlain

/-- Items have the HTML of the flow that they make, if there are no definitions
among them. -/
theorem Item.html_flow (symbols : Symbols) (items : List Item)
    (hPlain : Item.expressionsOf (Item.allIn items) = []) :
    (Item.flow (Item.resolvedAll symbols items)).html = Item.htmlAll symbols items := by
  cases items with
  | nil => rfl
  | cons item rest =>
      rw [Item.allIn, Item.expressionsOf, List.filterMap_append, List.append_eq_nil_iff] at hPlain
      rw [Item.resolvedAll, Item.flow, Item.html_before symbols item hPlain.1,
        Item.html_flow symbols rest hPlain.2, Item.htmlAll_cons]

end

mutual

/-- A flow stays well named when an item whose names are identifiers comes
before it. -/
theorem Item.wellNamed_before (symbols : Symbols) (item : Item)
    (hNames : ∀ word ∈ Item.namesOf item.all, IsIdentifier word) {after : Flow}
    (hAfter : after.WellNamed) :
    ((item.resolved symbols).before after).WellNamed := by
  cases item with
  | element tag attributes content =>
      obtain ⟨⟨hTag, hKeys⟩, hContent⟩ := Item.forall_names_element.mp hNames
      refine .element hTag ?_ (Item.wellNamed_flow symbols content hContent) hAfter
      rw [List.forall_mem_map]
      exact hKeys
  | shown message => exact hAfter.prepend _
  | definition name expression => exact hAfter

/-- Items whose names are identifiers make a flow that is well named. -/
theorem Item.wellNamed_flow (symbols : Symbols) (items : List Item)
    (hNames : ∀ word ∈ Item.namesOf (Item.allIn items), IsIdentifier word) :
    (Item.flow (Item.resolvedAll symbols items)).WellNamed := by
  cases items with
  | nil => exact .text []
  | cons item rest =>
      rw [Item.allIn, Item.namesOf, List.flatMap_append, List.forall_mem_append] at hNames
      exact Item.wellNamed_before symbols item hNames.1 (Item.wellNamed_flow symbols rest hNames.2)

end

/-! ### HTML read back -/

namespace Flow

theorem unescape_cons {b : UInt8} (h : b ≠ 0x26) (rest : Bytes) :
    unescape (b :: rest) = b :: unescape rest := by
  rw [unescape] <;> intros <;> simp_all

/-- What a byte is escaped to is read as this byte, whatever follows it. -/
theorem unescape_escapeByte (b : UInt8) (rest : Bytes) :
    unescape (escapeByte b ++ rest) = b :: unescape rest := by
  obtain ⟨rfl, hBytes⟩ | ⟨rfl, hBytes⟩ | ⟨rfl, hBytes⟩ | ⟨rfl, hBytes⟩ |
      ⟨hPlain, hBytes⟩ := escapeByte_cases b
  · rw [hBytes]; rfl
  · rw [hBytes]; rfl
  · rw [hBytes]; rfl
  · rw [hBytes]; rfl
  · rw [hBytes]
    exact unescape_cons (List.ne_of_not_mem_cons hPlain) rest

/-- Escaping is undone. -/
theorem unescape_escape (raw : Bytes) : unescape (escape raw) = raw := by
  induction raw with
  | nil => rfl
  | cons b rest ih =>
      rw [escape, List.flatMap_cons, unescape_escapeByte]
      exact congrArg (b :: ·) ih

theorem bne_of_mem_escape {b : UInt8} (h : b = 0x3c ∨ b = 0x3e ∨ b = 0x22) {raw : Bytes} :
    ∀ c ∈ escape raw, (c != b) = true := by
  rintro c hc
  rw [bne_iff_ne]
  rintro rfl
  exact notMem_escape h raw hc

/-- A name, and what follows it. -/
theorem takeWhile_identifier {word : Bytes} (h : IsIdentifier word) {b : UInt8}
    (hb : Lexer.isNamePart b = false) (rest : Bytes) :
    (word ++ b :: rest).takeWhile Lexer.isNamePart = word :=
  takeWhile_run h.isNamePart (stops_cons hb rest)

theorem dropWhile_identifier {word : Bytes} (h : IsIdentifier word) {b : UInt8}
    (hb : Lexer.isNamePart b = false) (rest : Bytes) :
    (word ++ b :: rest).dropWhile Lexer.isNamePart = b :: rest :=
  dropWhile_run h.isNamePart (stops_cons hb rest)

/-- Attributes as they are written before the end of a tag are read back. The
bound limits their number only. Keys end before the equals sign, and values
before the quote, since neither occurs inside. -/
theorem readAttributes_written {attributes : List Attribute}
    (hKeys : ∀ a ∈ attributes, IsIdentifier a.key) {bound : Nat}
    (hBound : attributes.length < bound) (rest : Bytes) :
    readAttributes bound (attributes.flatMap Attribute.written ++ 0x3e :: rest) =
      some (attributes, rest) := by
  induction attributes generalizing bound with
  | nil =>
      obtain ⟨bound, rfl⟩ := Nat.exists_eq_add_one.mpr hBound
      rfl
  | cons a others ih =>
      obtain ⟨bound, rfl⟩ := Nat.exists_eq_add_one.mpr (Nat.zero_lt_of_lt hBound)
      have hOthers := ih (fun b hb => hKeys b (.tail _ hb)) (Nat.lt_of_succ_lt_succ hBound)
      have hKey := hKeys a (.head _)
      have hQuoted : ∀ c ∈ escape a.value, (c != 0x22) = true :=
        bne_of_mem_escape (.inr (.inr rfl))
      have hStop : Stops (· != 0x22)
          (0x22 :: (others.flatMap Attribute.written ++ 0x3e :: rest)) := stops_cons rfl _
      simp only [List.flatMap_cons, Attribute.written, List.cons_append, List.append_assoc,
        readAttributes, takeWhile_identifier hKey (b := 0x3d) rfl,
        dropWhile_identifier hKey (b := 0x3d) rfl, takeWhile_run hQuoted hStop,
        dropWhile_run hQuoted hStop, unescape_escape, List.drop_one, List.tail_cons,
        List.nil_append, hOthers]
      rfl

theorem length_le_flatMap_written (attributes : List Attribute) :
    attributes.length ≤ (attributes.flatMap Attribute.written).length := by
  induction attributes with
  | nil => exact Nat.le_refl _
  | cons a others ih =>
      simp only [List.flatMap_cons, List.length_append, List.length_cons, Attribute.written]
      omega

/-- The name of a tag ends before the attributes, and at the end of the tag if
there are none. -/
theorem stops_written (attributes : List Attribute) (rest : Bytes) :
    Stops Lexer.isNamePart (attributes.flatMap Attribute.written ++ 0x3e :: rest) := by
  cases attributes with
  | nil => exact stops_cons rfl rest
  | cons a others => exact stops_cons rfl _

theorem closed_tag {tag : Bytes} (h : IsIdentifier tag) (rest : Bytes) :
    closed tag (0x3c :: 0x2f :: (tag ++ 0x3e :: rest)) = some rest := by
  simp only [closed, takeWhile_identifier h (b := 0x3e) rfl,
    dropWhile_identifier h (b := 0x3e) rfl, if_true]

/-- Bytes at which content ends. -/
def EndsContent (rest : Bytes) : Prop :=
  rest = [] ∨ ∃ after, rest = 0x3c :: 0x2f :: after

/-- The HTML of a flow is read back as this flow, up to the closing tag around
it or the end. The induction is on the flow, and the bound exceeds the bytes
that are left. -/
theorem readContent_html {flow : Flow} (h : flow.WellNamed) {bound : Nat}
    (hBound : flow.html.length < bound) {rest : Bytes} (hRest : EndsContent rest) :
    readContent bound (flow.html ++ rest) = some (flow, rest) := by
  induction h generalizing bound rest with
  | text t =>
      obtain ⟨bound, rfl⟩ := Nat.exists_eq_add_one.mpr (Nat.zero_lt_of_lt hBound)
      have hText : ∀ c ∈ escape t, (c != lessThan) = true := bne_of_mem_escape (.inl rfl)
      have hStop : Stops (· != lessThan) rest := by
        obtain rfl | ⟨after, rfl⟩ := hRest
        · exact stops_nil
        · exact stops_cons rfl _
      simp only [html, readContent, takeWhile_run hText hStop, dropWhile_run hText hStop,
        unescape_escape]
      obtain rfl | ⟨after, rfl⟩ := hRest
      · rfl
      · rfl
  | @element before tag attributes inside after hTag hKeys _ _ ihInside ihAfter =>
      obtain ⟨bound, rfl⟩ := Nat.exists_eq_add_one.mpr (Nat.zero_lt_of_lt hBound)
      have hCount : attributes.length ≤ (attributes.flatMap Attribute.written).length :=
        length_le_flatMap_written attributes
      simp only [html, List.length_append, List.length_cons] at hBound
      have hHead (following : Bytes) : (tag ++ following).head? ≠ some 0x2f := by
        obtain ⟨first, more, rfl, hFirst, -⟩ := hTag
        rintro ⟨⟩
        cases hFirst
      have hText : ∀ c ∈ escape before, (c != lessThan) = true := bne_of_mem_escape (.inl rfl)
      have hStop (following : Bytes) : Stops (· != lessThan) (0x3c :: following) :=
        stops_cons rfl _
      have hEnd (following : Bytes) :
          Stops Lexer.isNamePart (attributes.flatMap Attribute.written ++ 0x3e :: following) :=
        stops_written attributes following
      have hAttributes (following : Bytes) : readAttributes bound
          (attributes.flatMap Attribute.written ++ 0x3e :: following) =
            some (attributes, following) :=
        readAttributes_written hKeys (by omega) following
      have hInside (following : Bytes) :
          readContent bound (inside.html ++ 0x3c :: 0x2f :: following) =
          some (inside, 0x3c :: 0x2f :: following) :=
        ihInside (by omega) (.inr ⟨_, rfl⟩)
      have hAfter : readContent bound (after.html ++ rest) = some (after, rest) :=
        ihAfter (by omega) hRest
      simp only [html, List.append_assoc, List.cons_append, readContent,
        takeWhile_run hText (hStop _), dropWhile_run hText (hStop _), if_neg (hHead _),
        takeWhile_run hTag.isNamePart (hEnd _), dropWhile_run hTag.isNamePart (hEnd _), hAttributes,
        hInside, closed_tag hTag, hAfter, unescape_escape, Option.bind_eq_bind, Option.bind_some]
      rfl

/-- Texts and elements are read back from their HTML. -/
theorem read_html_eq {flow : Flow} (h : flow.WellNamed) : read flow.html = some flow := by
  have hContent : readContent (flow.html.length + 1) (flow.html ++ []) = some (flow, []) :=
    readContent_html h (Nat.lt_succ_self _) (.inl rfl)
  rw [List.append_nil] at hContent
  rw [read, hContent]

end Flow

/-! ### Empty texts -/

namespace Flow

theorem prepend_nil (flow : Flow) : flow.prepend [] = flow := by
  cases flow with
  | text t => rfl
  | element before tag attributes inside after => rfl

/-- A text in front of another is joined to it, as one item. -/
theorem textItems_append {t : Bytes} (h : t.isEmpty = false) (u : Bytes) :
    textItems (t ++ u) = Item.attach (.shown t) (textItems u) := by
  cases t with
  | nil => cases h
  | cons b rest =>
      cases u with
      | nil => rw [List.append_nil]; rfl
      | cons c others => rfl

/-- A text in front of texts and elements is joined to the text that they begin
with, if there is one. -/
theorem items_prepend {t : Bytes} (h : t.isEmpty = false) (flow : Flow) :
    (flow.prepend t).items = Item.attach (.shown t) flow.items := by
  cases flow with
  | text u => exact textItems_append h u
  | element before tag attributes inside after =>
      rw [prepend, items, items, textItems_append h before]
      cases before with
      | nil => rfl
      | cons b rest => rfl

end Flow

mutual

/-- An item without definitions comes before others as it does in a
document. -/
theorem Item.items_before (item : Item) (hPlain : Item.expressionsOf item.all = [])
    (after : Flow) : (item.before after).items =
      if item.isEmptyText then after.items else Item.attach item.pruned.joined after.items := by
  cases item with
  | element tag attributes content =>
      rw [Item.before, Flow.items, Item.items_flow content hPlain]
      rfl
  | shown message =>
      rw [Item.before, Item.isEmptyText]
      cases hEmpty : message.isEmpty with
      | true => rw [List.isEmpty_iff.mp hEmpty, Flow.prepend_nil, if_pos rfl]
      | false => rw [Flow.items_prepend hEmpty, if_neg Bool.false_ne_true]; rfl
  | definition name expression => cases hPlain

/-- Texts with elements between them are the document without its empty texts,
the others joined where they stand side by side. -/
theorem Item.items_flow (items : List Item)
    (hPlain : Item.expressionsOf (Item.allIn items) = []) :
    (Item.flow items).items = Item.joinedAll (Item.prunedAll items) := by
  cases items with
  | nil => rfl
  | cons item rest =>
      rw [Item.allIn, Item.expressionsOf, List.filterMap_append, List.append_eq_nil_iff] at hPlain
      rw [Item.flow, Item.items_before item hPlain.1, Item.items_flow rest hPlain.2,
        Item.prunedAll]
      split
      · rfl
      · rfl

end

mutual

/-- Replacing placeholders adds no definitions. -/
theorem Item.expressionsOf_resolved (symbols : Symbols) (item : Item) :
    Item.expressionsOf (item.resolved symbols).all = Item.expressionsOf item.all := by
  cases item with
  | element tag attributes content => exact Item.expressionsOf_resolvedAll symbols content
  | shown message => rfl
  | definition name expression => rfl

theorem Item.expressionsOf_resolvedAll (symbols : Symbols) (items : List Item) :
    Item.expressionsOf (Item.allIn (Item.resolvedAll symbols items)) =
      Item.expressionsOf (Item.allIn items) := by
  cases items with
  | nil => rfl
  | cons item rest =>
      have hItem := Item.expressionsOf_resolved symbols item
      have hRest := Item.expressionsOf_resolvedAll symbols rest
      rw [Item.expressionsOf, Item.expressionsOf] at hItem hRest
      rw [Item.resolvedAll, Item.allIn, Item.allIn, Item.expressionsOf, Item.expressionsOf,
        List.filterMap_append, List.filterMap_append, hItem, hRest]

end

/-! ### Documents read back -/

/-- A document of elements and shown texts whose names are identifiers is read
back from its HTML, whatever bytes its texts and the values of symbols hold:
with its placeholders replaced, the texts that are empty then dropped, and the
texts that stand side by side then joined. -/
theorem ofHtml_html (symbols : Symbols) (tag : Bytes) (attributes : List Attribute)
    (content : List Item)
    (hNames : ∀ word ∈ Item.namesOf (Item.element tag attributes content).all,
      IsIdentifier word)
    (hPlain : Item.expressionsOf (Item.element tag attributes content).all = []) :
    Item.ofHtml ((Item.element tag attributes content).html symbols) =
      some ((Item.element tag attributes content).resolved symbols).pruned.joined := by
  have hHtml := Item.html_before symbols (.element tag attributes content) hPlain (.text [])
  have hNamed := Item.wellNamed_before symbols (.element tag attributes content) hNames (.text [])
  have hEmpty : (Flow.text []).html = [] := rfl
  rw [hEmpty, List.append_nil] at hHtml
  have hRead := Flow.read_html_eq hNamed
  rw [hHtml] at hRead
  have hResolved := Item.expressionsOf_resolved symbols (.element tag attributes content)
  have hItems := Item.items_before _ (hResolved.trans hPlain) (.text [])
  rw [Item.ofHtml, hRead, Option.map_some, hItems]
  rfl

/-- An attribute and a text that take a quote and a bracket from a symbol,
behind a text that is a bracket itself, and an element whose texts come to
nothing. -/
theorem ofHtml_html_bracketed :
    let symbols : Symbols := [([0x76], [0x22, 0x3e])]
    let placeholder : Bytes := [0x7b, 0x76, 0x7d]
    let root := paragraph [⟨[0x6b], placeholder⟩] [.shown [0x3c], .shown [],
      .shown placeholder, .element [0x62] [] [.shown [], .shown []]]
    (∀ word ∈ Item.namesOf root.all, IsIdentifier word) ∧ Item.expressionsOf root.all = [] ∧
      Item.ofHtml (root.html symbols) = some (.element [0x70] [⟨[0x6b], [0x22, 0x3e]⟩]
        [.shown [0x3c, 0x22, 0x3e], .element [0x62] [] []]) := by
  intro symbols placeholder root
  have hNames : ∀ word ∈ Item.namesOf root.all, IsIdentifier word := by
    intro word hWord
    have hMem : word ∈ [[0x70], [0x6b], [0x62]] := hWord
    simp only [List.mem_cons, List.not_mem_nil, or_false] at hMem
    rcases hMem with rfl | rfl | rfl <;> exact isIdentifier_letter (by decide)
  have hPlain : Item.expressionsOf root.all = [] := rfl
  have hSymbol : substitute symbols placeholder = [0x22, 0x3e] := by
    have hLookup : symbols.lookup [0x76] = some [0x22, 0x3e] := rfl
    simp [placeholder, substitute, openBrace, placeholder?, closeBrace, hLookup]
  have hBracket : substitute symbols [0x3c] = [0x3c] := by simp [substitute, openBrace]
  have hEmpty : substitute symbols [] = [] := by rw [substitute]
  refine ⟨hNames, hPlain, (ofHtml_html symbols _ _ _ hNames hPlain).trans ?_⟩
  simp only [Item.resolved, Item.resolvedAll, List.map_cons, List.map_nil, Attribute.resolved,
    hSymbol, hBracket, hEmpty]
  rfl

/-- With empty texts kept, documents cannot be told from their HTML: a paragraph
that shows an empty text and one that shows nothing at all are written
alike. -/
theorem no_decoder_of_empty_text :
    ¬ ∃ decode : Bytes → Option Item, ∀ symbols tag attributes content,
      (∀ word ∈ Item.namesOf (Item.element tag attributes content).all, IsIdentifier word) →
      Item.expressionsOf (Item.element tag attributes content).all = [] →
      decode ((Item.element tag attributes content).html symbols) =
        some ((Item.element tag attributes content).resolved symbols).joined := by
  rintro ⟨decode, hDecode⟩
  have hTag : ∀ word ∈ [[0x70]], IsIdentifier word :=
    List.forall_mem_singleton.mpr (isIdentifier_letter (by decide))
  have hShown := hDecode [] [0x70] [] [.shown []] hTag rfl
  have hBare := hDecode [] [0x70] [] [] hTag rfl
  have hHtml : (Item.element [0x70] [] [.shown []]).html [] =
      (Item.element [0x70] [] []).html [] := by
    simp [Item.html, Item.htmlAll, substitute, escape]
  have hEqual := hShown.symm.trans ((congrArg decode hHtml).trans hBare)
  cases hEqual

end PageScript.Markup
