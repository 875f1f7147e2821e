import PageScript.Proofs.Markup.Injection

/-! Definitions are flat. However deep they stand, the definitions of a
document are made in the order in which they are written, each resolved once
among the symbols known before it. Main statements: what a walk defines is what
its list of definitions defines, and what becomes of a literal that a name is
defined as. -/
namespace PageScript.Markup

/-! ### The lines of a walk -/

/-- A line that a walk prints. -/
inductive Line where
  | entering (tag : Bytes)
  | carrying (a : Attribute)
  | shown (message : Bytes)
  | defined (name value : Bytes)
  | exiting (tag : Bytes)
  deriving Repr, DecidableEq

namespace Line

/-- The line without its end. -/
def text : Line → Bytes
  | .entering tag => Utf8.encode "Entering element <" ++ (tag ++ Utf8.encode ">")
  | .carrying a => Utf8.encode "  [Attribute] " ++ (a.key ++ (Utf8.encode " = " ++ a.value))
  | .shown message => Utf8.encode "[SHOW] " ++ message
  | .defined name value => Utf8.encode "[DEFINE] " ++ (name ++ (Utf8.encode " = " ++ value))
  | .exiting tag => Utf8.encode "Exiting element <" ++ (tag ++ Utf8.encode ">")

/-- The line as it is printed. -/
def bytes (line : Line) : Bytes := lineOf [line.text]

/-- The name that a line says is defined, and its value. -/
def defined? : Line → Option (Bytes × Bytes)
  | .defined name value => some (name, value)
  | _ => none

end Line

namespace Item

mutual

/-- The lines that are printed for an item, in their order. -/
def lines : Item → Symbols → List Line
  | .element tag attributes content, symbols =>
    .entering tag :: (attributes.map Line.carrying ++ (linesIn content symbols ++ [.exiting tag]))
  | .shown message, _ => [.shown message]
  | .definition name expression, symbols => [.defined name (symbols.resolve expression)]

def linesIn : List Item → Symbols → List Line
  | [], _ => []
  | item :: rest, symbols => item.lines symbols ++ linesIn rest (item.walk symbols).symbols

end

mutual

/-- What a walk prints is its lines, one after the other. -/
theorem output_walk (item : Item) (symbols : Symbols) :
    (item.walk symbols).output = (item.lines symbols).flatMap Line.bytes := by
  cases item with
  | element tag attributes content =>
      have hInside := output_walkAll content symbols
      simp only [walk, lines, hInside, List.flatMap_cons, List.flatMap_append, List.flatMap_map,
        List.flatMap_nil]
      simp [Line.bytes, Line.text, lineOf, List.flatMap_def]
  | shown message => simp [walk, lines, Line.bytes, Line.text, lineOf]
  | definition name expression => simp [walk, lines, Line.bytes, Line.text, lineOf]

/-- What a walk along some items prints is their lines, one after the other. -/
theorem output_walkAll (items : List Item) (symbols : Symbols) :
    (walkAll items symbols).output = (linesIn items symbols).flatMap Line.bytes := by
  cases items with
  | nil => rw [walkAll, linesIn, List.flatMap_nil]
  | cons item rest =>
      rw [walkAll, linesIn, List.flatMap_append, ← output_walk item
        symbols, ← output_walkAll rest]

end

/-- The name that an item defines, and what it is defined as. -/
def definition? : Item → Option (Bytes × Bytes)
  | .definition name expression => some (name, expression)
  | _ => none

/-- The definitions in a document, in the order in which they are written. -/
def definitions (item : Item) : List (Bytes × Bytes) := item.all.filterMap definition?

def definitionsIn (items : List Item) : List (Bytes × Bytes) := (allIn items).filterMap definition?

theorem definitions_element (tag : Bytes) (attributes : List Attribute) (content : List Item) :
    (Item.element tag attributes content).definitions = definitionsIn content := by
  rw [definitions, all, definitionsIn]
  rfl

theorem definitions_shown (message : Bytes) : (Item.shown message).definitions = [] := by
  rw [definitions, all]
  rfl

theorem definitions_definition (name expression : Bytes) :
    (Item.definition name expression).definitions = [(name, expression)] := by
  rw [definitions, all]
  rfl

theorem definitionsIn_nil : definitionsIn [] = [] := by
  rw [definitionsIn, allIn]
  rfl

theorem definitionsIn_cons (item : Item) (rest : List Item) :
    definitionsIn (item :: rest) = item.definitions ++ definitionsIn rest := by
  rw [definitionsIn, allIn, List.filterMap_append]
  rfl

end Item

/-! ### Definitions as one list -/

namespace Symbols

/-- The values of definitions made one after the other. Each is resolved once,
and is known to those behind it. -/
def resolveAll (symbols : Symbols) : List (Bytes × Bytes) → List (Bytes × Bytes)
  | [] => []
  | (name, expression) :: rest =>
    let value := symbols.resolve expression
    (name, value) :: resolveAll ((name, value) :: symbols) rest

/-- The symbols that are known after these definitions. -/
def after (symbols : Symbols) (definitions : List (Bytes × Bytes)) : Symbols :=
  (symbols.resolveAll definitions).reverse ++ symbols

variable (symbols : Symbols)

theorem after_nil : symbols.after [] = symbols := rfl

theorem after_cons (name expression : Bytes) (rest : List (Bytes × Bytes)) :
    symbols.after ((name, expression) :: rest) =
      after ((name, symbols.resolve expression) :: symbols) rest := by
  simp [after, resolveAll]

/-- Later definitions are resolved among the symbols that the earlier ones have
left. -/
theorem resolveAll_append (earlier later : List (Bytes × Bytes)) :
    symbols.resolveAll (earlier ++ later) =
      symbols.resolveAll earlier ++ (symbols.after earlier).resolveAll later := by
  induction earlier generalizing symbols with
  | nil => rfl
  | cons d earlier ih =>
      obtain ⟨name, expression⟩ := d
      rw [List.cons_append, resolveAll, ih, after_cons]
      rfl

/-- What is known after some definitions and others is what is known after the
others, from what was known after the first. -/
theorem after_append (earlier later : List (Bytes × Bytes)) :
    symbols.after (earlier ++ later) = (symbols.after earlier).after later := by
  simp [after, resolveAll_append]

/-- The value of a definition depends on those before it only. -/
theorem getElem?_resolveAll {definitions : List (Bytes × Bytes)} {place : Nat}
    {name expression : Bytes} (h : definitions[place]? = some (name, expression)) :
    (symbols.resolveAll definitions)[place]? =
      some (name, (symbols.after (definitions.take place)).resolve expression) := by
  induction definitions generalizing symbols place with
  | nil => cases h
  | cons d rest ih =>
      obtain ⟨first, defined⟩ := d
      cases place with
      | zero =>
          cases h
          rfl
      | succ place =>
          rw [resolveAll, List.take_succ_cons, after_cons]
          exact ih _ h

/-- A name that is not defined again keeps its value. -/
theorem lookup_after {definitions : List (Bytes × Bytes)} {name : Bytes}
    (h : name ∉ definitions.map Prod.fst) :
    (symbols.after definitions).lookup name = symbols.lookup name := by
  induction definitions generalizing symbols with
  | nil => rfl
  | cons d rest ih =>
      obtain ⟨first, expression⟩ := d
      obtain ⟨hFirst, hRest⟩ := not_or.mp (mt List.mem_cons.mpr h)
      rw [after_cons, ih _ hRest, List.lookup_cons, beq_eq_false_iff_ne.mpr hFirst]

end Symbols

namespace Item

mutual

/-- A walk makes the definitions of a document as one list. The symbols that it
leaves and the definitions that it prints are both told by this list. -/
theorem defined_walk (item : Item) (symbols : Symbols) :
    (item.walk symbols).symbols = symbols.after item.definitions ∧
      (item.lines symbols).filterMap Line.defined? = symbols.resolveAll item.definitions := by
  cases item with
  | element tag attributes content =>
      obtain ⟨hSymbols, hLines⟩ := defined_walkAll content symbols
      have hAttributes : (attributes.map Line.carrying).filterMap Line.defined? = [] := by
        simp [List.filterMap_map, Function.comp_def, Line.defined?]
      rw [definitions_element]
      refine ⟨by rw [walk, hSymbols], ?_⟩
      rw [lines, List.filterMap_cons_none rfl, List.filterMap_append, hAttributes,
        List.filterMap_append, hLines]
      exact List.append_nil _
  | shown message =>
      rw [definitions_shown]
      refine ⟨by rw [walk, Symbols.after_nil], ?_⟩
      rw [lines]
      rfl
  | definition name expression =>
      rw [definitions_definition]
      refine ⟨by rw [walk, Symbols.after_cons, Symbols.after_nil], ?_⟩
      rw [lines]
      rfl

/-- A walk along items leaves and prints what the list of their definitions
does. -/
theorem defined_walkAll (items : List Item) (symbols : Symbols) :
    (walkAll items symbols).symbols = symbols.after (definitionsIn items) ∧
      (linesIn items symbols).filterMap Line.defined? =
        symbols.resolveAll (definitionsIn items) := by
  cases items with
  | nil =>
      rw [definitionsIn_nil, walkAll, linesIn]
      exact ⟨rfl, rfl⟩
  | cons item rest =>
      obtain ⟨hSymbols, hLines⟩ := defined_walk item symbols
      obtain ⟨hRest, hLinesRest⟩ := defined_walkAll rest (symbols.after item.definitions)
      rw [definitionsIn_cons, Symbols.after_append, Symbols.resolveAll_append, walkAll, linesIn,
        List.filterMap_append, hLines, hSymbols]
      exact ⟨hRest, by rw [hLinesRest]⟩

end

end Item

/-! ### The lines of an output -/

/-- The byte that ends a line. -/
def lineEnd : UInt8 := 0x0a

namespace Line

/-- What a line says about its document. -/
def texts : Line → List Bytes
  | .entering tag | .exiting tag => [tag]
  | .carrying a => [a.key, a.value]
  | .shown message => [message]
  | .defined name value => [name, value]

/-- A line has no line end inside if none of its texts has one. -/
theorem lineEnd_notMem_text {line : Line} (h : ∀ t ∈ line.texts, lineEnd ∉ t) :
    lineEnd ∉ line.text := by
  have hEntering : lineEnd ∉ Utf8.encode "Entering element <" := by decide
  have hExiting : lineEnd ∉ Utf8.encode "Exiting element <" := by decide
  have hTagEnd : lineEnd ∉ Utf8.encode ">" := by decide
  have hCarrying : lineEnd ∉ Utf8.encode "  [Attribute] " := by decide
  have hShown : lineEnd ∉ Utf8.encode "[SHOW] " := by decide
  have hDefined : lineEnd ∉ Utf8.encode "[DEFINE] " := by decide
  have hEquals : lineEnd ∉ Utf8.encode " = " := by decide
  cases line <;> simp_all [texts, text]

/-- The words in front tell a definition from all other lines. Only a shown
text begins with the same bracket; the other lines differ in their first
byte. -/
theorem isPrefixOf_text (line : Line) :
    (Utf8.encode "[DEFINE] ").isPrefixOf line.text = line.defined?.isSome := by
  have hDefined : Utf8.encode "[DEFINE] " =
      [0x5b, 0x44, 0x45, 0x46, 0x49, 0x4e, 0x45, 0x5d, 0x20] := by decide
  have hShown : Utf8.encode "[SHOW] " = [0x5b, 0x53, 0x48, 0x4f, 0x57, 0x5d, 0x20] := by decide
  have hEntering : Utf8.encode "Entering element <" = 0x45 :: Utf8.encode "ntering element <" := by
    decide
  have hExiting : Utf8.encode "Exiting element <" = 0x45 :: Utf8.encode "xiting element <" := by
    decide
  have hCarrying : Utf8.encode "  [Attribute] " = 0x20 :: Utf8.encode " [Attribute] " := by decide
  cases line with
  | entering tag =>
      rw [text, hDefined, hEntering]
      rfl
  | carrying a =>
      rw [text, hDefined, hCarrying]
      rfl
  | shown message =>
      rw [text, hDefined, hShown]
      rfl
  | defined name value => simp [text, defined?]
  | exiting tag =>
      rw [text, hDefined, hExiting]
      rfl

/-- Lines that are not broken are found again in the output. -/
theorem splitOn_bytes {lines : List Line} (h : ∀ line ∈ lines, lineEnd ∉ line.text) :
    (lines.flatMap bytes).splitOn lineEnd = lines.map text ++ [[]] := by
  induction lines with
  | nil => exact List.splitOn_nil lineEnd
  | cons line rest ih =>
      obtain ⟨hLine, hRest⟩ := List.forall_mem_cons.mp h
      have hBytes : line.bytes ++ rest.flatMap bytes = line.text ++ lineEnd ::
          rest.flatMap bytes := by
        simp [bytes, lineOf, lineEnd]
      rw [List.flatMap_cons, hBytes, List.splitOn_append_cons_self_of_not_mem hLine, ih hRest]
      rfl

/-- Among the lines that are printed, those which begin like a definition are
the definitions. -/
theorem filter_text (lines : List Line) :
    (lines.map text).filter (Utf8.encode "[DEFINE] ").isPrefixOf =
      (lines.filterMap defined?).map fun d => (Line.defined d.1 d.2).text := by
  induction lines with
  | nil => rfl
  | cons line rest ih =>
      have hLine := isPrefixOf_text line
      rw [List.map_cons, List.filter_cons, hLine, ih]
      cases line <;> rfl

end Line

/-- No value of these symbols has a line end. -/
def Symbols.Unbroken (symbols : Symbols) : Prop :=
  ∀ entry ∈ symbols, lineEnd ∉ entry.2

/-- Resolving a text without a line end gives one, where no known value has a
line end. -/
theorem Symbols.Unbroken.resolve {symbols : Symbols} (h : symbols.Unbroken) {expression : Bytes}
    (hExpression : lineEnd ∉ expression) : lineEnd ∉ symbols.resolve expression := by
  rw [Symbols.resolve]
  cases hLookup : symbols.lookup expression with
  | none => exact hExpression
  | some value =>
      obtain ⟨before, behind, rfl, -⟩ := List.lookup_eq_some_iff.mp hLookup
      exact h (expression, value) (by simp)

/-- Known values have no line ends if those known before have none and the new
one has none. -/
theorem Symbols.Unbroken.cons {symbols : Symbols} (h : symbols.Unbroken) (name : Bytes)
    {value : Bytes} (hValue : lineEnd ∉ value) : Symbols.Unbroken ((name, value) :: symbols) :=
  List.forall_mem_cons.mpr ⟨hValue, h⟩

namespace Item

/-- All that an item itself says. -/
def ownTexts : Item → List Bytes
  | .element tag attributes _ => tag :: attributes.flatMap fun a => [a.key, a.value]
  | .shown message => [message]
  | .definition name expression => [name, expression]

/-- No text of these items has a line end. -/
def Unbroken (items : List Item) : Prop :=
  ∀ item ∈ items, ∀ text ∈ item.ownTexts, lineEnd ∉ text

mutual

/-- Where no text is broken, no line is, and no value that becomes known. The
recursion is that of the walk, and a value that becomes known is resolved among
values that have no line end. -/
theorem unbroken_walk (item : Item) {symbols : Symbols} (hItem : Unbroken item.all)
    (hSymbols : symbols.Unbroken) :
    (item.walk symbols).symbols.Unbroken ∧ ∀ line ∈ item.lines symbols,
      lineEnd ∉ line.text := by
  cases item with
  | element tag attributes content =>
      rw [all] at hItem
      obtain ⟨hOwn, hContent⟩ := List.forall_mem_cons.mp hItem
      obtain ⟨hTag, hAttributes⟩ := List.forall_mem_cons.mp hOwn
      obtain ⟨hKnown, hLines⟩ := unbroken_walkAll content hContent hSymbols
      refine ⟨by rw [walk]; exact hKnown, ?_⟩
      have hTagTexts : ∀ t ∈ [tag], lineEnd ∉ t := by simpa using hTag
      rw [lines, List.forall_mem_cons, List.forall_mem_append, List.forall_mem_append,
        List.forall_mem_map]
      refine ⟨Line.lineEnd_notMem_text hTagTexts, fun a ha => ?_, hLines, ?_⟩
      · exact Line.lineEnd_notMem_text fun t ht =>
          hAttributes t (List.mem_flatMap.mpr ⟨a, ha, ht⟩)
      · rw [List.forall_mem_singleton]
        exact Line.lineEnd_notMem_text hTagTexts
  | shown message =>
      rw [all] at hItem
      have hOwn := hItem _ (.head _)
      refine ⟨by rw [walk]; exact hSymbols, ?_⟩
      rw [lines, List.forall_mem_singleton]
      exact Line.lineEnd_notMem_text hOwn
  | definition name expression =>
      rw [all] at hItem
      have hOwn := hItem _ (.head _)
      have hName : lineEnd ∉ name := hOwn name (.head _)
      have hValue := hSymbols.resolve (hOwn expression (.tail _ (.head _)))
      refine ⟨by rw [walk]; exact hSymbols.cons name hValue, ?_⟩
      rw [lines, List.forall_mem_singleton]
      exact Line.lineEnd_notMem_text
        (List.forall_mem_cons.mpr ⟨hName, List.forall_mem_singleton.mpr hValue⟩)

/-- Where no text of some items is broken, no line of their walk is, and no
value that becomes known. -/
theorem unbroken_walkAll (items : List Item) {symbols : Symbols} (hItems : Unbroken (allIn items))
    (hSymbols : symbols.Unbroken) :
    (walkAll items symbols).symbols.Unbroken ∧ ∀ line ∈ linesIn items symbols,
      lineEnd ∉ line.text := by
  cases items with
  | nil =>
      rw [walkAll, linesIn]
      exact ⟨hSymbols, List.forall_mem_nil _⟩
  | cons item rest =>
      rw [allIn] at hItems
      obtain ⟨hFirst, hRest⟩ := List.forall_mem_append.mp hItems
      obtain ⟨hKnown, hLines⟩ := unbroken_walk item hFirst hSymbols
      obtain ⟨hLast, hOthers⟩ := unbroken_walkAll rest hRest hKnown
      rw [walkAll, linesIn]
      exact ⟨hLast, List.forall_mem_append.mpr ⟨hLines, hOthers⟩⟩

end

/-- What a walk prints and remembers of definitions is what the list of all
definitions of the document, in the order in which they are written, comes to:
each is resolved once among the symbols known before it. If no text is broken,
the lines of the output that say so can be told by their beginning. Documents
with the same definitions in the same order define the same, however these are
nested. A name keeps its value until it is itself defined again. -/
theorem walk_definitions_flat (item : Item) (symbols : Symbols) :
    (item.walk symbols).output = (item.lines symbols).flatMap Line.bytes ∧
    (item.lines symbols).filterMap Line.defined? = symbols.resolveAll item.definitions ∧
    (item.walk symbols).symbols = (symbols.resolveAll item.definitions).reverse ++ symbols ∧
    (Unbroken item.all → symbols.Unbroken →
      ((item.walk symbols).output.splitOn lineEnd).filter (Utf8.encode "[DEFINE] ").isPrefixOf =
        (symbols.resolveAll item.definitions).map fun d => (Line.defined d.1 d.2).text) ∧
    (∀ other : Item, other.definitions = item.definitions →
      (other.lines symbols).filterMap Line.defined? =
        (item.lines symbols).filterMap Line.defined? ∧
        (other.walk symbols).symbols = (item.walk symbols).symbols) ∧
    (∀ earlier later, item.definitions = earlier ++ later →
      symbols.resolveAll earlier <+: (item.lines symbols).filterMap Line.defined? ∧
        ∀ name, name ∉ later.map Prod.fst →
          (item.walk symbols).symbols.lookup name = (symbols.after earlier).lookup name) := by
  obtain ⟨hSymbols, hLines⟩ := item.defined_walk symbols
  refine ⟨item.output_walk symbols, hLines, hSymbols, ?_, ?_, ?_⟩
  · intro hItem hKnown
    rw [item.output_walk symbols, Line.splitOn_bytes (item.unbroken_walk hItem hKnown).2,
      List.filter_append, Line.filter_text, hLines]
    have hWord : Utf8.encode "[DEFINE] " ≠ [] := by decide
    simp [hWord]
  · intro other hOther
    obtain ⟨hOtherSymbols, hOtherLines⟩ := other.defined_walk symbols
    rw [hOtherSymbols, hOtherLines, hOther, hSymbols, hLines]
    exact ⟨rfl, rfl⟩
  · intro earlier later hDefinitions
    rw [hLines, hSymbols, hDefinitions, Symbols.resolveAll_append, Symbols.after_append]
    exact ⟨List.prefix_append _ _, fun name hName => Symbols.lookup_after _ hName⟩

/-- A name is used inside a nested element and defined again behind it. Its
first value stays where it was used, also if both definitions are moved into
the nested element. -/
theorem walk_definitions_flat_nested :
    let item : Item := .element [0x70] [] [.definition [0x78] [0x31],
      .element [0x71] [] [.definition [0x79] [0x78]], .definition [0x78] [0x32]]
    let moved : Item := .element [0x70] [] [.element [0x71] [] [.definition [0x78] [0x31],
      .definition [0x79] [0x78]], .definition [0x78] [0x32]]
    moved.definitions = item.definitions ∧ (moved.walk []).symbols = (item.walk []).symbols ∧
      (item.walk []).symbols.lookup [0x79] = some [0x31] ∧
      ((item.walk []).output.splitOn lineEnd).filter (Utf8.encode "[DEFINE] ").isPrefixOf =
        [Utf8.encode "[DEFINE] x = 1", Utf8.encode "[DEFINE] y = 1",
          Utf8.encode "[DEFINE] x = 2"] := by
  intro item moved
  have hMoved : moved.definitions = item.definitions := rfl
  have hItem : Unbroken item.all := by
    simp [Unbroken, item, all, allIn, ownTexts, lineEnd]
  obtain ⟨-, -, -, hPrinted, hSame, hLater⟩ := walk_definitions_flat item []
  have hKept :=
    (hLater [([0x78], [0x31]), ([0x79], [0x78])] [([0x78], [0x32])] rfl).2 [0x79] (by decide)
  refine ⟨hMoved, (hSame moved hMoved).2, hKept, ?_⟩
  rw [hPrinted hItem (List.forall_mem_nil _)]
  decide

end Item

/-! ### Literals -/

/-- The definitions that are written in a row of lexemes: the name, and the
lexeme that stands for its value. -/
def written : List Lexeme → List (Bytes × Lexeme)
  | [] => []
  | first :: rest =>
    match first.kind, rest with
    | .define, name :: _ :: value :: _ => (name.text, value) :: written rest
    | _, _ => written rest

/-- A definition without the kind of its value. -/
def untagged (d : Bytes × Lexeme) : Bytes × Bytes := (d.1, d.2.text)

section

variable {rest : List Lexeme}

theorem written_of_ne {l : Lexeme} (h : l.kind ≠ .define) :
    written (l :: rest) = written rest := by
  rw [written]
  intro name equals value others hKind
  exact absurd hKind h

theorem written_append_of_ne {front : List Lexeme} (h : ∀ l ∈ front, l.kind ≠ .define) :
    written (front ++ rest) = written rest := by
  induction front with
  | nil => rfl
  | cons l front ih =>
      obtain ⟨hFirst, hRest⟩ := List.forall_mem_cons.mp h
      rw [List.cons_append, written_of_ne hFirst, ih hRest]

theorem ne_define_of_moreForm {others : List Attribute} {form : List Lexeme}
    (h : MoreForm others form) :
    ∀ l ∈ form, l.kind ≠ .define := by
  induction h with
  | nil => exact List.forall_mem_nil _
  | cons comma first more ih =>
      cases first
      simpa using ih

/-- Attributes, with all that stands around them, announce no definition. -/
theorem ne_define_of_headForm {attributes : List Attribute} {form : List Lexeme}
    (h : HeadForm attributes form) :
    ∀ l ∈ form, l.kind ≠ .define := by
  have hAll : ∀ {found form}, AttributesForm found form → ∀ l ∈ form,
      l.kind ≠ .define := by
    intro found form hForm
    cases hForm with
    | mk first more =>
        cases first
        simpa using ne_define_of_moreForm more
  cases h with
  | none => exact List.forall_mem_nil _
  | plain all => exact hAll all
  | terminated all stop =>
      rw [List.forall_mem_append, List.forall_mem_singleton]
      exact ⟨hAll all, by simp⟩

end

/-- These lexemes define just this, whatever stands behind them. -/
structure Defines (form : List Lexeme) (definitions : List (Bytes × Bytes)) : Prop where
  untagged_written : (written form).map untagged = definitions
  written_append : ∀ rest, written (form ++ rest) = written form ++ written rest

namespace Defines

theorem nothing {form : List Lexeme} (h : ∀ l ∈ form, l.kind ≠ .define) :
    Defines form [] := by
  have hForm : written form = [] := by
    have hAppend : written (form ++ []) = written [] := written_append_of_ne h
    rwa [List.append_nil] at hAppend
  exact ⟨by rw [hForm]; rfl, fun rest => by rw [written_append_of_ne h, hForm]; rfl⟩

/-- Forms that follow one another define what the first one does and then what
the second does. -/
theorem append {form following : List Lexeme} {definitions others : List (Bytes × Bytes)}
    (h : Defines form definitions) (hFollowing : Defines following others) :
    Defines (form ++ following) (definitions ++ others) where
  untagged_written := by
    rw [h.written_append, List.map_append, h.untagged_written, hFollowing.untagged_written]
  written_append rest := by
    rw [List.append_assoc, h.written_append, hFollowing.written_append, h.written_append,
      List.append_assoc]

/-- The form of a definition defines just that. The name and the value behind
the word announce nothing themselves. -/
theorem of_definitionForm {name expression : Bytes} {form : List Lexeme}
    (h : DefinitionForm (.definition name expression) form) :
    Defines form [(name, expression)] := by
  cases h with
  | mk word name equals stop defined =>
      cases defined <;> exact ⟨by simp [written, untagged], fun rest => by simp [written]⟩

end Defines

mutual

/-- The form of an item defines what the item does, in the order in which it is
written. The tags and the head of an element announce no definition, and its
items follow one another. -/
theorem defines_item (item : Item) {form : List Lexeme} (h : ItemForm item form) :
    Defines form item.definitions := by
  cases item with
  | element tag attributes content =>
      cases h with
      | shown h => cases h
      | definition h => cases h
      | element h =>
          cases h with
          | @mk _ _ front inside hash tag closing head items =>
              rw [Item.definitions_element, ← List.append_nil (Item.definitionsIn content)]
              have hOpening : Defines [⟨.hash, hash⟩, ⟨.identifier, tag⟩] [] :=
                .nothing (by simp)
              have hClosing : Defines [⟨.closingHash, closing⟩, ⟨.identifier, tag⟩] [] :=
                .nothing (by simp)
              have hHead : Defines front [] := .nothing (ne_define_of_headForm head)
              exact hOpening.append (hHead.append ((defines_items content items).append hClosing))
  | shown message =>
      rw [Item.definitions_shown]
      cases h with
      | shown h =>
          cases h
          exact .nothing (by simp)
      | definition h => cases h
      | element h => cases h
  | definition name expression =>
      rw [Item.definitions_definition]
      cases h with
      | shown h => cases h
      | definition h => exact .of_definitionForm h
      | element h => cases h

/-- The forms of items define what the items do, in the order in which they are
written. -/
theorem defines_items (items : List Item) {form : List Lexeme} (h : ItemsForm items form) :
    Defines form (Item.definitionsIn items) := by
  cases items with
  | nil =>
      cases h
      rw [Item.definitionsIn_nil]
      exact .nothing (List.forall_mem_nil _)
  | cons item rest =>
      cases h with
      | cons first more =>
          rw [Item.definitionsIn_cons]
          exact (defines_item item first).append (defines_items rest more)

end

/-- The symbols that are known when the definition at this place is reached. -/
def Item.known (item : Item) (symbols : Symbols) (place : Nat) : Symbols :=
  symbols.after (item.definitions.take place)

/-- A definition becomes known as soon as it is made, with its value resolved
among those known before. -/
theorem Item.known_succ {item : Item} {place : Nat} {name expression : Bytes}
    (h : item.definitions[place]? = some (name, expression)) (symbols : Symbols) :
    item.known symbols (place + 1) =
      (name, (item.known symbols place).resolve expression) :: item.known symbols place := by
  rw [known, List.take_add_one, h, Symbols.after_append]
  rfl

/-- A name is resolved to itself exactly if it is unknown, or known as
itself. -/
theorem Symbols.resolve_eq_self_iff {symbols : Symbols} {name : Bytes} :
    symbols.resolve name = name ↔ ∀ value, symbols.lookup name = some value →
      value = name := by
  rw [Symbols.resolve]
  cases symbols.lookup name <;> simp

/-- A literal that a name is defined as is taken for a name itself. It is
printed and bound as it is written exactly if no symbol of that name is known
when it is reached, or if its value is the literal again. The kind of the value
is lost between what is written and what is read. -/
theorem interpret_defined_literal {source : Bytes} {tokens rest : List Token} {item : Item}
    (hTokens : Lexer.tokens source = .ok (tokens ++ rest))
    (hItem : Reader.document (tokens ++ rest) = .ok (item, rest)) (symbols : Symbols) :
    interpret source symbols =
      ⟨(item.lines symbols).flatMap Line.bytes, [],
        item.known symbols item.definitions.length⟩ ∧
    ∀ place name text, (written (tokens.map Token.lexeme))[place]? =
      some (name, ⟨.text, text⟩) →
      ((item.lines symbols).filterMap Line.defined?)[place]? =
        some (name, (item.known symbols place).resolve text) ∧
      (item.known symbols (place + 1)).lookup name =
        some ((item.known symbols place).resolve text) ∧
      ((item.known symbols place).resolve text = text ↔
        ∀ value, (item.known symbols place).lookup text = some value → value = text) := by
  obtain ⟨hSymbols, hLines⟩ := item.defined_walk symbols
  have hRead : Item.read source = .ok item := by
    rw [Item.read, hTokens, ok_bind, hItem]
    rfl
  refine ⟨?_, ?_⟩
  · rw [interpret, hRead, Item.known, List.take_length, ← hSymbols, ← item.output_walk]
  · intro place name text hWritten
    obtain ⟨front, hFront, hForm⟩ := Reader.document_eq_ok_iff.mp hItem
    cases List.append_cancel_right hFront
    have hDefinition : item.definitions[place]? = some (name, text) := by
      rw [← (defines_item item (.element hForm)).untagged_written, List.getElem?_map, hWritten]
      rfl
    refine ⟨?_, ?_, Symbols.resolve_eq_self_iff⟩
    · rw [hLines]
      exact symbols.getElem?_resolveAll hDefinition
    · rw [Item.known_succ hDefinition, List.lookup_cons_self]

/-- A laid out form is cut into tokens that are read as what it is a form
of. -/
theorem document_of_laid {item : Item} {lexemes : List Lexeme} {source : Bytes}
    (hForm : ElementForm item lexemes) (hLaid : Laid lexemes source) :
    ∃ tokens rest, Lexer.tokens source = .ok (tokens ++ rest) ∧
      Reader.document (tokens ++ rest) = .ok (item, rest) ∧
        tokens.map Token.lexeme = lexemes := by
  obtain ⟨all, hAll, hLexemes⟩ := Lexer.tokensFrom_of_laid hLaid 0
  obtain ⟨tokens, rest, rfl, rfl, -⟩ := List.map_eq_append_iff.mp hLexemes
  exact ⟨tokens, rest, hAll, Reader.document_eq_ok_iff.mpr ⟨tokens, rfl, hForm⟩, rfl⟩

/-- An element that defines `x` as the literal `1`, and then `y` as the literal
`x`. -/
def namesake : Item := .element [0x70] [] [.definition [0x78] [0x31], .definition [0x79] [0x78]]

def namesakeLexemes : List Lexeme :=
  [⟨.hash, [0x23]⟩, ⟨.identifier, [0x70]⟩,
    ⟨.define, Lexer.defineSpelling⟩, ⟨.identifier, [0x78]⟩, ⟨.equals, [0x3d]⟩,
    ⟨.text, [0x31]⟩,
    ⟨.terminator, [0x5c, 0x5c]⟩,
    ⟨.define, Lexer.defineSpelling⟩, ⟨.identifier, [0x79]⟩, ⟨.equals, [0x3d]⟩,
    ⟨.text, [0x78]⟩,
    ⟨.terminator, [0x5c, 0x5c]⟩, ⟨.closingHash, [0x5c, 0x23]⟩, ⟨.identifier, [0x70]⟩]

/-- The element as it is written: `#p define x="1"\\ define y="x"\\ \#p`. -/
def namesakeSource : Bytes :=
  [0x23, 0x70, 0x20, 0x64, 0x65, 0x66, 0x69, 0x6e, 0x65, 0x20, 0x78, 0x3d, 0x22, 0x31, 0x22,
    0x5c, 0x5c, 0x20, 0x64, 0x65, 0x66, 0x69, 0x6e, 0x65, 0x20, 0x79, 0x3d, 0x22, 0x78, 0x22, 0x5c,
    0x5c, 0x20, 0x5c, 0x23, 0x70]

theorem elementForm_namesake : ElementForm namesake namesakeLexemes :=
  .mk [0x23] [0x70] [0x5c, 0x23] .none
    (.cons (.definition (.mk _ _ _ _ (.literal _)))
      (.cons (.definition (.mk _ _ _ _ (.literal _))) .nil))

theorem isName_letter {b : UInt8} (h : Lexer.isNameStart b = true) : IsName [b] where
  spelled := isIdentifier_letter h
  ne_show := by simp [Lexer.showSpelling]
  ne_define := by simp [Lexer.defineSpelling]

/-- The lexemes are laid out in the source. The definitions are laid out alike,
by their letters. -/
theorem laid_namesake : Laid namesakeLexemes namesakeSource := by
  have hBlank : Lexer.isBlank 0x20 = true := rfl
  have hDefinition : ∀ {name value : UInt8} {lexemes : List Lexeme} {source : Bytes},
      Lexer.isNameStart name = true → value ≠ 0x22 → value ≠ 0x5c →
        Laid lexemes source →
      Laid (⟨.define, Lexer.defineSpelling⟩ :: ⟨.identifier, [name]⟩ ::
        ⟨.equals, [0x3d]⟩ :: ⟨.text, [value]⟩ ::
          ⟨.terminator, [0x5c, 0x5c]⟩ :: lexemes)
        (Lexer.defineSpelling ++ 0x20 :: ([name] ++ ([0x3d] ++ ((0x22 :: ([value] ++ [0x22])) ++
          ([0x5c, 0x5c] ++ 0x20 :: source))))) := by
    intro name value lexemes source hName hQuote hBackslash hRest
    refine .cons .define (fun _ => endsWord_cons rfl _) (.blank hBlank ?_)
    refine .cons (.name (isName_letter hName)) (fun _ => endsWord_cons rfl _) ?_
    refine .cons .equals (fun h => by simp at h) ?_
    refine .cons (.literal (.plain hQuote hBackslash .nil)) (fun h => by simp at h) ?_
    exact .cons .terminator (fun h => by simp at h) (.blank hBlank hRest)
  have hClosing : Laid [⟨.closingHash, [0x5c, 0x23]⟩, ⟨.identifier, [0x70]⟩]
      [0x5c, 0x23, 0x70] :=
    .cons .closingHash (fun h => by simp at h)
      (.cons (.name (isName_letter rfl)) (fun _ => stops_nil) .nil)
  refine .cons .hash (fun h => by simp at h) ?_
  refine .cons (.name (isName_letter rfl)) (fun _ => endsWord_cons rfl _) (.blank hBlank ?_)
  exact hDefinition rfl (by decide) (by decide) (hDefinition rfl (by decide) (by decide) hClosing)

/-- The literal `1` is no known name, so it is printed and bound as it is
written. -/
theorem interpret_defined_literal_unknown :
    ∃ tokens rest, Lexer.tokens namesakeSource = .ok (tokens ++ rest) ∧
      Reader.document (tokens ++ rest) = .ok (namesake, rest) ∧
      (written (tokens.map Token.lexeme))[0]? = some ([0x78], ⟨.text, [0x31]⟩) ∧
      ((namesake.lines []).filterMap Line.defined?)[0]? = some ([0x78], [0x31]) ∧
      (namesake.known [] 1).lookup [0x78] = some [0x31] := by
  obtain ⟨tokens, rest, hTokens, hItem, hLexemes⟩ :=
    document_of_laid elementForm_namesake laid_namesake
  have hWritten : (written (tokens.map Token.lexeme))[0]? = some ([0x78], ⟨.text, [0x31]⟩) := by
    rw [hLexemes]
    rfl
  obtain ⟨hLine, hBound, -⟩ := (interpret_defined_literal hTokens hItem []).2 0 _ _ hWritten
  exact ⟨tokens, rest, hTokens, hItem, hWritten, hLine, hBound⟩

/-- The literal `x` is the name of a known symbol: `y` is printed and bound as
`1`. -/
theorem interpret_literal_namesake :
    ∃ tokens rest, Lexer.tokens namesakeSource = .ok (tokens ++ rest) ∧
      Reader.document (tokens ++ rest) = .ok (namesake, rest) ∧
      (written (tokens.map Token.lexeme))[1]? = some ([0x79], ⟨.text, [0x78]⟩) ∧
      (interpret namesakeSource []).output =
        Utf8.encode
          "Entering element <p>\n[DEFINE] x = 1\n[DEFINE] y = 1\nExiting element <p>\n" ∧
      (interpret namesakeSource []).symbols.lookup [0x79] = some [0x31] := by
  obtain ⟨tokens, rest, hTokens, hItem, hLexemes⟩ :=
    document_of_laid elementForm_namesake laid_namesake
  have hInterpreted : interpret namesakeSource [] =
      ⟨(namesake.walk []).output, [], (namesake.walk []).symbols⟩ := by
    rw [interpret, read_of_laid elementForm_namesake laid_namesake]
  refine ⟨tokens, rest, hTokens, hItem, by rw [hLexemes]; rfl, ?_, ?_⟩
  · rw [hInterpreted]
    decide +kernel
  · rw [hInterpreted]
    rfl

end PageScript.Markup
