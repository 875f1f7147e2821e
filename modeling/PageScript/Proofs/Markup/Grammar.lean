import PageScript.Markup.Item

/-! The grammar of documents. A form of an item is a row of lexemes that the
grammar derives for it; where lexemes stand has no meaning. -/
namespace PageScript.Markup

/-- A token without its place. -/
structure Lexeme where
  kind : Kind
  text : Bytes
  deriving Repr, DecidableEq

def Token.lexeme (t : Token) : Lexeme := ⟨t.kind, t.text⟩

/-- An attribute is `identifier ':' literal`. -/
inductive AttributeForm : Attribute → List Lexeme → Prop where
  | mk (key colon value : Bytes) :
      AttributeForm ⟨key, value⟩
        [⟨.identifier, key⟩, ⟨.colon, colon⟩, ⟨.text, value⟩]

/-- Further attributes are `(',' attribute)*`. -/
inductive MoreForm : List Attribute → List Lexeme → Prop where
  | nil : MoreForm [] []
  | cons {a : Attribute} {others : List Attribute} {form following : List Lexeme} (comma : Bytes)
      (first : AttributeForm a form) (rest : MoreForm others following) :
      MoreForm (a :: others) (⟨.comma, comma⟩ :: (form ++ following))

/-- Attributes are `attribute (',' attribute)*`. -/
inductive AttributesForm : List Attribute → List Lexeme → Prop where
  | mk {a : Attribute} {others : List Attribute} {form following : List Lexeme}
      (first : AttributeForm a form) (rest : MoreForm others following) :
      AttributesForm (a :: others) (form ++ following)

/-- The head of a body is `[ attributes terminator? ]`. -/
inductive HeadForm : List Attribute → List Lexeme → Prop where
  | none : HeadForm [] []
  | plain {attributes : List Attribute} {form : List Lexeme}
      (all : AttributesForm attributes form) :
      HeadForm attributes form
  | terminated {attributes : List Attribute} {form : List Lexeme}
      (all : AttributesForm attributes form)
      (stop : Bytes) : HeadForm attributes (form ++ [⟨.terminator, stop⟩])

/-- A shown text is `'show' literal terminator`. -/
inductive ShownForm : Item → List Lexeme → Prop where
  | mk (word message stop : Bytes) :
      ShownForm (.shown message) [⟨.showWord, word⟩, ⟨.text, message⟩,
        ⟨.terminator, stop⟩]

/-- An expression is `identifier | literal`. -/
inductive ExpressionForm : Bytes → Lexeme → Prop where
  | name (word : Bytes) : ExpressionForm word ⟨.identifier, word⟩
  | literal (value : Bytes) : ExpressionForm value ⟨.text, value⟩

/-- A definition is `'define' identifier '=' expression terminator`. -/
inductive DefinitionForm : Item → List Lexeme → Prop where
  | mk {expression : Bytes} {value : Lexeme} (word name equals stop : Bytes)
      (defined : ExpressionForm expression value) :
      DefinitionForm (.definition name expression)
        [⟨.define, word⟩, ⟨.identifier, name⟩, ⟨.equals, equals⟩, value,
          ⟨.terminator, stop⟩]

mutual

/-- An element is `'#' identifier head item* '\#' identifier`, and the two
identifiers are the same. -/
inductive ElementForm : Item → List Lexeme → Prop where
  | mk {attributes : List Attribute} {content : List Item} {front inside : List Lexeme}
      (hash tag closing : Bytes) (head : HeadForm attributes front)
      (items : ItemsForm content inside) :
      ElementForm (.element tag attributes content)
        (⟨.hash, hash⟩ :: ⟨.identifier, tag⟩ ::
          (front ++ (inside ++ [⟨.closingHash, closing⟩, ⟨.identifier, tag⟩])))

/-- An item is a shown text, a definition or an element. -/
inductive ItemForm : Item → List Lexeme → Prop where
  | shown {item : Item} {form : List Lexeme} (h : ShownForm item form) : ItemForm item form
  | definition {item : Item} {form : List Lexeme} (h : DefinitionForm item form) :
      ItemForm item form
  | element {item : Item} {form : List Lexeme} (h : ElementForm item form) : ItemForm item form

inductive ItemsForm : List Item → List Lexeme → Prop where
  | nil : ItemsForm [] []
  | cons {item : Item} {others : List Item} {form following : List Lexeme}
      (first : ItemForm item form)
      (rest : ItemsForm others following) : ItemsForm (item :: others) (form ++ following)

end

end PageScript.Markup
