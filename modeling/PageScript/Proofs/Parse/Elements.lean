import PageScript.Proofs.Automaton.Elements
import PageScript.Proofs.Grammar.Means
import PageScript.Proofs.Parse.Acceptance
import PageScript.Proofs.Table

/-! Scripts that are one element. Main statement: an element with attributes is
parsed to its node, with or without content and however it is closed; an
element without attributes is refused behind its closing mark, which is taken
for dynamic content. -/
namespace PageScript

namespace Automaton

open PageScript.Derivation Growth

/-! ### Reading from a given state -/

/-- From this state and before any of these kinds, tokens with these contents
are read as a derivation that leads to the next state and comes to this
phrase. -/
def ReadsAs (state next : Nat) (after : List Terminal) (contents : List (Terminal × Value))
    (p : Phrase) : Prop :=
  ∀ tokens : List Token, tokens.map Token.content = contents →
    ∃ d : Derivation, d.tokens = tokens ∧ d.value .keep = .ok p ∧
      ∀ (spine : Spine) (rest : List Token), topOf spine = state → headKind rest ∈ after →
        Grows spine d next rest

/-- The kinds that can stand first where these contents come before others. -/
def firstKinds (after : List Terminal) : List (Terminal × Value) → List Terminal
  | [] => after
  | (kind, _) :: _ => [kind]

/-- The contents, cut into pieces, are read one after the other. -/
inductive ReadAllAs (after : List Terminal) :
    Nat → List (Terminal × Value) → List Phrase → Nat → Prop where
  | nil (state : Nat) : ReadAllAs after state [] [] state
  | cons {state next last : Nat} {kinds : List Terminal}
      {contents others : List (Terminal × Value)} {p : Phrase}
      {ps : List Phrase} (first : ReadsAs state next kinds contents p)
      (fits : firstKinds after others ⊆ kinds)
      (rest : ReadAllAs after next others ps last) :
      ReadAllAs after state (contents ++ others) (p :: ps) last

section reading

variable {state next last : Nat} {after : List Terminal} {contents : List (Terminal × Value)}
    {p : Phrase}

theorem readsAs_token {kind : Terminal} (h : target? state (.t kind) = some next)
    (after : List Terminal) (value : Value) :
    ReadsAs state next after [(kind, value)] (.leaf value) := by
  intro tokens hTokens
  obtain ⟨t, rfl, hContent⟩ := List.map_eq_singleton_iff.mp hTokens
  obtain ⟨rfl, rfl⟩ := Prod.mk.inj hContent
  refine ⟨.leaf t, rfl, rfl, ?_⟩
  rintro spine rest rfl -
  exact .leaf rest h

/-- A token in front is read if the state leads on with it, and what follows is
read from there. -/
theorem ReadAllAs.token {kind : Terminal} {others : List (Terminal × Value)} {ps : List Phrase}
    (h : target? state (.t kind) = some next) (value : Value)
    (rest : ReadAllAs after next others ps last) :
    ReadAllAs after state ((kind, value) :: others) (.leaf value :: ps) last :=
  .cons (readsAs_token h _ value) (List.Subset.refl _) rest

theorem ReadAllAs.single {kinds : List Terminal} (h : ReadsAs state next kinds contents p)
    (hFits : after ⊆ kinds) :
    ReadAllAs after state contents [p] next := by
  rw [← List.append_nil contents]
  exact .cons h hFits (.nil next)

/-- Where contents come before others, the first token is of the kinds that can
stand first. -/
theorem headKind_mem_firstKinds {tokens rest : List Token} (h : tokens.map Token.content = contents)
    (hRest : headKind rest ∈ after) :
    headKind (tokens ++ rest) ∈ firstKinds after contents := by
  subst h
  cases tokens with
  | nil => exact hRest
  | cons t tokens => exact .head _

/-- Contents that are read one after the other have derivations that grow one
after the other. -/
theorem ReadAllAs.exists_growsAll {ps : List Phrase} (h : ReadAllAs after state contents ps last)
    {tokens : List Token} (hTokens : tokens.map Token.content = contents) :
    ∃ ds : List Derivation, tokensAll ds = tokens ∧ values .keep ds = .ok ps ∧
      ds.length = ps.length ∧
      ∀ (spine : Spine) (rest : List Token), topOf spine = state → headKind rest ∈ after →
        ∃ final, topOf final = last ∧ GrowsAll rest spine ds final := by
  induction h generalizing tokens with
  | nil state =>
      cases List.map_eq_nil_iff.mp hTokens
      exact ⟨[], rfl, rfl, rfl, fun spine rest hState _ => ⟨spine, hState, .nil spine⟩⟩
  | @cons state next last kinds contents others p ps first fits _ ih =>
      obtain ⟨front, back, rfl, hFront, hBack⟩ := List.map_eq_append_iff.mp hTokens
      obtain ⟨d, rfl, hValue, hGrows⟩ := first front hFront
      obtain ⟨ds, rfl, hValues, hLength, hRow⟩ := ih hBack
      refine ⟨d :: ds, rfl, values_cons_ok hValue hValues, congrArg Nat.succ hLength, ?_⟩
      intro spine rest hState hRest
      have hFirst :=
        hGrows spine (tokensAll ds ++ rest) hState (fits (headKind_mem_firstKinds hBack hRest))
      obtain ⟨final, hFinal, hOthers⟩ := hRow ((next, d) :: spine) rest rfl hRest
      exact ⟨final, hFinal, .cons hFirst hOthers⟩

/-- A rule is read where its parts are, if the automaton reduces by it behind
them. -/
theorem readsAs_node (rule : Rule) {ps : List Phrase}
    (hRow : ReadAllAs after state contents ps last) (hSize : ps.length = rule.size)
    (hReduce : ∀ kind ∈ after, decision last kind = some (.reduce rule))
    (hLeads : target? state (.n rule.production.phrase) = some next)
    (hBuild : (Build.build .keep rule ps).result = .ok p) :
    ReadsAs state next after contents p := by
  intro tokens hTokens
  obtain ⟨ds, hAll, hValues, hLength, hGrows⟩ := hRow.exists_growsAll hTokens
  refine ⟨.node rule ds, hAll, (value_node_ok hValues).trans hBuild, ?_⟩
  rintro spine rest rfl hRest
  obtain ⟨final, rfl, hParts⟩ := hGrows spine rest rfl hRest
  exact .node hParts (hLength.trans hSize) (hReduce _ hRest) hLeads

end reading

/-! ### Attributes -/

/-- The tokens of an attribute. -/
def attributeTokens (pair : String × String) : List (Terminal × Value) :=
  [(.identifier, .text pair.1), (.colon, .text ":"), (.text, .text pair.2)]

/-- What can follow an attribute. -/
def afterAttribute : List Terminal := [.identifier, .terminator, .hash]

/-- The state behind the tag of an element. -/
def tagEnd : Nat := 79

/-- The state behind the attributes of an element. -/
def attributesEnd : Nat := 124

/-- The state behind the body of an element, where a mark closes it. -/
def bodyEnd : Nat := 123

/-- The state behind a mark that is taken for the beginning of dynamic
content. -/
def dynamicMark : Nat := 121

/-- An attribute is read alike behind the tag and behind other attributes. -/
theorem readsAs_attribute {state next : Nat} (name : Nat)
    (hName : target? state (.t .identifier) = some name)
    (hColon : target? name (.t .colon) = some 176)
    (hNext : target? state (.n .attributePair) = some next) (pair : String × String) :
    ReadsAs state next afterAttribute (attributeTokens pair) (.attributes ⟨[pair]⟩) := by
  have hText : target? 176 (.t .text) = some 227 := by decide +kernel
  have hReduce : ∀ kind ∈ afterAttribute,
      decision 227 kind = some (.reduce .attributePair) := by decide +kernel
  exact readsAs_node .attributePair (.token hName _ (.token hColon _ (.token hText _ (.nil 227))))
    rfl hReduce hNext rfl

/-- Attributes are added one by one behind those that have been read. The list
is left recursive, so the induction carries what has been read so far. -/
theorem readsAs_attributes_append {given : List (Terminal × Value)}
    {earlier later : List (String × String)}
    (hEarlier : ReadsAs tagEnd attributesEnd afterAttribute given (.attributes ⟨earlier⟩))
    (hKeys : ((earlier ++ later).map Prod.fst).Nodup) :
    ReadsAs tagEnd attributesEnd afterAttribute (given ++ later.flatMap attributeTokens)
      (.attributes ⟨earlier ++ later⟩) := by
  induction later generalizing given earlier with
  | nil =>
      rw [List.flatMap_nil, List.append_nil, List.append_nil]
      exact hEarlier
  | cons pair later ih =>
      have hNext : ReadsAs attributesEnd 180 afterAttribute (attributeTokens pair)
          (.attributes ⟨[pair]⟩) :=
        readsAs_attribute 181 (by decide +kernel) (by decide +kernel) (by decide +kernel) pair
      have hNew : pair.1 ∉ earlier.map Prod.fst := by
        rw [List.map_append, List.map_cons] at hKeys
        exact fun hOld => (List.nodup_append.mp hKeys).2.2 _ hOld _ (.head _) rfl
      have hReduce : ∀ kind ∈ afterAttribute,
          decision 180 kind = some (.reduce .attributesMore) := by decide +kernel
      have hMore : ReadsAs tagEnd attributesEnd afterAttribute (given ++ attributeTokens pair)
          (.attributes ⟨earlier ++ [pair]⟩) := by
        have hFits : firstKinds afterAttribute (attributeTokens pair) ⊆ afterAttribute :=
          show [Terminal.identifier] ⊆ afterAttribute by decide
        refine readsAs_node .attributesMore
          (.cons hEarlier hFits (.single hNext (List.Subset.refl _))) rfl hReduce
          (by decide +kernel) ?_
        rw [← Table.setEntry_of_notMem hNew]
        rfl
      rw [List.append_cons] at hKeys
      have hAll := ih hMore hKeys
      rw [List.append_assoc, List.append_assoc] at hAll
      exact hAll

/-- Attributes with different keys are read as a table of them, in their order.
The list is left recursive, so the induction carries what has been read so
far. -/
theorem readsAs_attributes {attributes : List (String × String)} (hSome : attributes ≠ [])
    (hKeys : (attributes.map Prod.fst).Nodup) :
    ReadsAs tagEnd attributesEnd afterAttribute (attributes.flatMap attributeTokens)
      (.attributes ⟨attributes⟩) := by
  obtain ⟨first, others, rfl⟩ := List.exists_cons_of_ne_nil hSome
  have hFirst : ReadsAs tagEnd 127 afterAttribute (attributeTokens first)
      (.attributes ⟨[first]⟩) :=
    readsAs_attribute 122 (by decide +kernel) (by decide +kernel) (by decide +kernel) first
  have hReduce : ∀ kind ∈ afterAttribute,
      decision 127 kind = some (.reduce .attributesOne) := by decide +kernel
  have hOne : ReadsAs tagEnd attributesEnd afterAttribute (attributeTokens first)
      (.attributes ⟨[first]⟩) :=
    readsAs_node .attributesOne (.single hFirst (List.Subset.refl _)) rfl hReduce
      (by decide +kernel) rfl
  exact readsAs_attributes_append hOne hKeys

/-! ### Content -/

/-- Tokens with these contents form a statement that comes to this node and is
not a bare expression. -/
structure PlainStatement (contents : List (Terminal × Value)) (n : Node) : Prop where
  means : Means .keep (.n .statement) contents (.node n)
  plain : ∀ e, n ≠ .expressionStatement e

theorem plainStatement_show {contents : List (Terminal × Value)} {e : Node}
    (h : Means .keep (.n .expression) contents (.node e)) :
    PlainStatement ((.showWord, .text "show") :: contents) (.showStatement e) where
  means := means_single .statementShow ⟨rfl, rfl⟩ rfl
    (means_node .showStatement ⟨rfl, rfl⟩ (.cons (means_token _ _ _) (.single h)) rfl) rfl
  plain _ := by rintro ⟨⟩

theorem plainStatement_define (name : String) {contents : List (Terminal × Value)} {e : Node}
    (h : Means .keep (.n .expression) contents (.node e)) :
    PlainStatement ((.define, .text "define") :: (.identifier, .text name) ::
      (.equals, .text "=") :: contents) (.declaration name none (Build.adopt name e) false) where
  means := means_single .statementVariable ⟨rfl, rfl⟩ rfl
    (means_node .variableUntyped ⟨rfl, rfl⟩
      (.cons (means_token _ _ _)
        (.cons (means_token _ _ _) (.cons (means_token _ _ _) (.single h)))) rfl) rfl
  plain _ := by rintro ⟨⟩

/-- The tokens of a statement, with its terminator. -/
def statementTokens (contents : List (Terminal × Value)) : List (Terminal × Value) :=
  contents ++ [(.terminator, .text "\\\\")]

/-- A bare expression comes to a node that shows it. So a statement that comes
to any other node is not made by the rule for bare expressions. -/
theorem ne_statementExpression {rule : Rule} {parts : List Derivation}
    (hValid : (node rule parts).Valid) {n : Node}
    (hValue : (node rule parts).value .keep = .ok (.node n))
    (hPlain : ∀ e, n ≠ .expressionStatement e) :
    rule ≠ .statementExpression := by
  rintro rfl
  obtain ⟨phrases, hPhrases, hBuild⟩ := value_node_inv hValue
  cases hValid with
  | node joins _ =>
      obtain ⟨d, rfl, hSymbol⟩ := List.map_eq_singleton_iff.mp joins
      obtain ⟨p, ps, rfl, hInner, -⟩ := values_cons_inv hPhrases
      cases hBuild
      cases d with
      | leaf t => cases hSymbol
      | node inner innerParts =>
          have hAll : ∀ rule ∈ Rule.ofPhrase .expressionStatement,
              rule = .expressionStatement := by decide +kernel
          have hPhrase : inner.production.phrase = .expressionStatement :=
            GrammarSymbol.n.inj hSymbol
          obtain rfl := hAll inner (hPhrase ▸ inner.mem_ofPhrase)
          obtain ⟨innerPhrases, -, hInnerBuild⟩ := value_node_inv hInner
          obtain ⟨e, -, hNode⟩ :=
            Option.map_eq_some_iff.mp (Build.join_of_build rfl hInnerBuild)
          cases hNode
          exact hPlain e rfl

/-- A statement that is not a bare expression is read inside an element, before
a terminator. -/
theorem readsAs_statement {state : Nat} (hInside : state ∈ insideElement)
    {contents : List (Terminal × Value)} {n : Node} (h : PlainStatement contents n) :
    ReadsAs state statementEnd [.terminator] contents (.node n) := by
  intro tokens hTokens
  obtain ⟨d, hDerives, hFree, hValue⟩ := h.means tokens hTokens
  refine ⟨d, hDerives.tokens_eq, hValue, ?_⟩
  rintro spine rest rfl hRest
  cases d with
  | leaf t => cases hDerives.symbol_eq
  | node rule parts =>
      have hPhrase : rule.production.phrase = .statement := GrammarSymbol.n.inj hDerives.symbol_eq
      exact grows_statement hDerives.valid hFree hPhrase
        (ne_statementExpression hDerives.valid hValue h.plain) hInside
        (List.mem_singleton.mp hRest)

/-- What begins a statement can begin one, whatever follows the statement. -/
theorem firstKinds_statement {contents : List (Terminal × Value)} {n : Node}
    (h : PlainStatement contents n) (after : List Terminal) (others : List (Terminal × Value)) :
    firstKinds after (contents ++ others) ⊆ startOfStatement := by
  let tokens : List Token := contents.map fun content => ⟨content.1, content.2, 0, default⟩
  have hTokens : tokens.map Token.content = contents := by
    rw [List.map_map]
    exact List.map_id _
  obtain ⟨d, hDerives, -, -⟩ := h.means tokens hTokens
  cases contents with
  | nil =>
      have hVanish := hDerives.valid.canVanish hDerives.tokens_eq
      rw [hDerives.symbol_eq] at hVanish
      cases hVanish
  | cons content contents =>
      have hStart := hDerives.valid.head_mem_starts hDerives.tokens_eq
      rw [hDerives.symbol_eq] at hStart
      intro kind hKind
      obtain rfl := List.mem_singleton.mp hKind
      exact (TerminalSet.mem_ofList _ _).mp hStart

/-- The states where content begins, each with the one that it leads to: the
state behind the tag, and the one behind attributes and a terminator. -/
def contentStates : List (Nat × Nat) := [(tagEnd, 125), (179, 229)]

theorem contentStates_targets :
    ∀ ends ∈ contentStates, ends.1 ∈ insideElement ∧ ends.2 ∈ insideElement ∧
    target? ends.1 (.n .contentItem) = some 128 ∧ target? ends.2 (.n .contentItem) = some 182 ∧
    target? ends.1 (.n .contentItems) = some ends.2 := by
  decide +kernel

/-- A statement with its terminator is read as an item of content. -/
theorem readsAs_contentItem {state next : Nat} (hInside : state ∈ insideElement)
    (hNext : target? state (.n .contentItem) = some next)
    {contents : List (Terminal × Value)} {n : Node} (h : PlainStatement contents n) :
    ReadsAs state next startOfStatement (statementTokens contents) (.node n) := by
  have hTerminator : target? statementEnd (.t .terminator) = some 183 := by decide +kernel
  have hReduce : ∀ kind ∈ startOfStatement,
      decision 183 kind = some (.reduce .contentStatement) := by decide +kernel
  exact readsAs_node .contentStatement
    (.cons (readsAs_statement hInside h) (List.Subset.refl _) (.token hTerminator _ (.nil 183))) rfl
      hReduce hNext rfl

section content

variable {ends : Nat × Nat} (hEnds : ends ∈ contentStates)

include hEnds

/-- Statements are added one by one behind those that have been read. The list
is left recursive, so the induction carries what has been read so far. -/
theorem readsAs_content_append {given : List (Terminal × Value)} {earlier : List Node}
    (hEarlier : ReadsAs ends.1 ends.2 startOfStatement given (.nodes earlier))
    {written : List (List (Terminal × Value))} {later : List Node}
    (hLater : List.Forall₂ PlainStatement written later) :
    ReadsAs ends.1 ends.2 startOfStatement (given ++ written.flatMap statementTokens)
      (.nodes (earlier ++ later)) := by
  obtain ⟨-, hInside, -, hItem, hItems⟩ := contentStates_targets ends hEnds
  induction hLater generalizing given earlier with
  | nil =>
      rw [List.flatMap_nil, List.append_nil, List.append_nil]
      exact hEarlier
  | @cons contents n written later first _ ih =>
      have hReduce : ∀ kind ∈ startOfStatement,
          decision 182 kind = some (.reduce .contentMore) := by decide +kernel
      have hMore : ReadsAs ends.1 ends.2 startOfStatement (given ++ statementTokens contents)
          (.nodes (earlier ++ [n])) :=
        readsAs_node .contentMore (.cons hEarlier (firstKinds_statement first _ _)
          (.single (readsAs_contentItem hInside hItem first) (List.Subset.refl _))) rfl
            hReduce hItems rfl
      have hAll := ih hMore
      rw [List.append_assoc, List.append_assoc] at hAll
      exact hAll

/-- Statements with their terminators are read as the content of an element.
The list is left recursive, so the induction carries what has been read so
far. -/
theorem readsAs_content {written : List (List (Terminal × Value))} {content : List Node}
    (hSome : written ≠ []) (h : List.Forall₂ PlainStatement written content) :
    ReadsAs ends.1 ends.2 startOfStatement (written.flatMap statementTokens) (.nodes content) := by
  obtain ⟨hInside, -, hItem, -, hItems⟩ := contentStates_targets ends hEnds
  cases h with
  | nil => exact absurd rfl hSome
  | cons first others =>
      have hReduce : ∀ kind ∈ startOfStatement,
          decision 128 kind = some (.reduce .contentOne) := by decide +kernel
      have hOne := readsAs_node .contentOne
        (.single (readsAs_contentItem hInside hItem first) (List.Subset.refl _)) rfl
          hReduce hItems rfl
      exact readsAs_content_append hEnds hOne others

end content

end Automaton

/-! ### Whole elements -/

open Automaton

/-- An element in writing: its tag, its attributes, the tokens of each of its
statements, and whether its tag is repeated at the end. -/
structure WrittenElement where
  tag : String
  attributes : List (String × String)
  statements : List (List (Terminal × Value))
  closesByName : Bool

namespace WrittenElement

/-- The tokens between the tag and the closing mark. A terminator stands
between attributes and content where there are both. -/
def body (w : WrittenElement) : List (Terminal × Value) :=
  w.attributes.flatMap attributeTokens ++
    (if w.attributes.isEmpty || w.statements.isEmpty then [] else [(.terminator, .text "\\\\")]) ++
    w.statements.flatMap statementTokens

/-- The tokens behind the closing mark. -/
def closing (w : WrittenElement) : List (Terminal × Value) :=
  if w.closesByName then [(.identifier, .text w.tag)] else []

theorem firstKinds_closing (w : WrittenElement) :
    firstKinds [.endOfInput] w.closing ⊆ [.identifier, .endOfInput] := by
  rw [closing]
  split
  · exact show [Terminal.identifier] ⊆ [.identifier, .endOfInput] by decide
  · exact show [Terminal.endOfInput] ⊆ [.identifier, .endOfInput] by decide

def contents (w : WrittenElement) : List (Terminal × Value) :=
  (.hash, .text "#") :: (.identifier, .text w.tag) :: (w.body ++ (.hash, .text "#") :: w.closing)

variable {w : WrittenElement} {content : List Node}

/-- Attributes, with or without content behind them, are read as the body of an
element. Behind attributes the mark after the content closes the element; it is
not taken for dynamic content there. -/
theorem readsAs_body (hAttributes : w.attributes ≠ []) (hKeys : (w.attributes.map Prod.fst).Nodup)
    (hContent : List.Forall₂ PlainStatement w.statements content) :
    ReadsAs tagEnd bodyEnd [.hash] w.body (.elementBody ⟨w.attributes⟩ content) := by
  have hRow := readsAs_attributes hAttributes hKeys
  have hBody : target? tagEnd (.n .elementBody) = some bodyEnd := by decide +kernel
  by_cases hStatements : w.statements = []
  · rw [hStatements] at hContent
    cases hContent
    have hReduce : ∀ kind ∈ [Terminal.hash], decision attributesEnd kind =
        some (.reduce .bodyAttributes) := by
      decide +kernel
    have hWritten : w.body = w.attributes.flatMap attributeTokens := by
      simp [body, hStatements]
    rw [hWritten]
    exact readsAs_node .bodyAttributes (.single hRow (by decide)) rfl hReduce hBody rfl
  · have hEnds : (179, 229) ∈ contentStates := by decide
    have hItems := readsAs_content hEnds hStatements hContent
    have hTerminator : target? attributesEnd (.t .terminator) = some 179 := by decide +kernel
    have hReduce : ∀ kind ∈ [Terminal.hash], decision 229 kind = some (.reduce .bodyBoth) := by
      decide +kernel
    have hWritten : w.body = w.attributes.flatMap attributeTokens ++
        (.terminator, .text "\\\\") :: w.statements.flatMap statementTokens := by
      simp [body, hAttributes, hStatements]
    have hFits : firstKinds [.hash]
        ((.terminator, .text "\\\\") :: w.statements.flatMap statementTokens) ⊆
        afterAttribute :=
      show [Terminal.terminator] ⊆ afterAttribute by decide
    rw [hWritten]
    exact readsAs_node .bodyBoth
      (.cons hRow hFits (.token hTerminator _ (.single hItems (by decide)))) rfl hReduce
      hBody rfl

/-- The closing mark is read, with the tag behind it or without. -/
theorem readsAs_closing (w : WrittenElement) :
    ∃ p : Phrase, ReadsAs bodyEnd 178 [.endOfInput] ((.hash, .text "#") :: w.closing) p ∧
      (p = .nothing ∨ p = .leaf (.text w.tag)) := by
  have hMark : target? bodyEnd (.t .hash) = some 177 := by decide +kernel
  have hLeads : target? bodyEnd (.n .closingTag) = some 178 := by decide +kernel
  cases hNamed : w.closesByName with
  | false =>
      have hReduce : ∀ kind ∈ [Terminal.endOfInput],
          decision 177 kind = some (.reduce .closingUnnamed) := by
        decide +kernel
      rw [closing, hNamed]
      exact ⟨.nothing, readsAs_node .closingUnnamed (.token hMark _ (.nil 177)) rfl hReduce hLeads
        rfl, .inl rfl⟩
  | true =>
      have hName : target? 177 (.t .identifier) = some 228 := by decide +kernel
      have hReduce : ∀ kind ∈ [Terminal.endOfInput],
          decision 228 kind = some (.reduce .closingNamed) := by
        decide +kernel
      rw [closing, hNamed]
      exact ⟨.leaf (.text w.tag),
        readsAs_node .closingNamed (.token hMark _ (.token hName _ (.nil 228))) rfl hReduce
        hLeads rfl, .inr rfl⟩

/-- A closing tag that is left out or repeats the tag fits. A closing tag that
is empty counts as left out. -/
theorem build_element (tag : String) (attributes : Table String) (content : List Node)
    {closing : Phrase} (h : closing = .nothing ∨ closing = .leaf (.text tag)) :
    (Build.build .keep .element
      [.leaf (.text "#"), .leaf (.text tag), .elementBody attributes content, closing]).result =
        .ok (.node (.element tag attributes content)) := by
  rcases h with rfl | rfl
  · rfl
  · have hName : (Phrase.leaf (.text tag)).closingName = none ∨
        (Phrase.leaf (.text tag)).closingName = some tag := by
      rw [Phrase.closingName]
      split
      · exact .inl rfl
      · exact .inr rfl
    have hBuild : (Build.build .keep .element
        [.leaf (.text "#"), .leaf (.text tag), .elementBody attributes content,
          .leaf (.text tag)]).result =
          Build.buildElement .keep tag attributes content (Phrase.leaf (.text tag)).closingName :=
          rfl
    rw [hBuild]
    rcases hName with hNone | hSome
    · rw [hNone]
      rfl
    · rw [hSome, Build.buildElement, if_pos rfl]
      rfl

/-- An element with attributes is read as a program of one element. Behind the
closing mark only the end of the input follows, before which every rule up to
the program is reduced by. -/
theorem readsAs_program (hAttributes : w.attributes ≠ [])
    (hKeys : (w.attributes.map Prod.fst).Nodup)
    (hContent : List.Forall₂ PlainStatement w.statements content) :
    ReadsAs 0 programState [.endOfInput] w.contents
      (.node (.program [.element w.tag ⟨w.attributes⟩ content])) := by
  obtain ⟨p, hClosing, hFits⟩ := w.readsAs_closing
  have hMark : target? 0 (.t .hash) = some 26 := by decide +kernel
  have hTag : target? 26 (.t .identifier) = some tagEnd := by decide +kernel
  have hReduces : ∀ kind ∈ [Terminal.endOfInput],
      decision 178 kind = some (.reduce .element) ∧
      decision 6 kind = some (.reduce .itemElement) ∧
        decision 4 kind = some (.reduce .itemsOne) ∧
      decision 2 kind = some (.reduce .programItems) := by decide +kernel
  have hElement : ReadsAs 0 6 [.endOfInput] w.contents
      (.node (.element w.tag ⟨w.attributes⟩ content)) :=
    readsAs_node .element
      (.token hMark _ (.token hTag _
        (.cons (readsAs_body hAttributes hKeys hContent) (List.Subset.refl _)
        (.single hClosing (List.Subset.refl _))))) rfl (fun kind hKind => (hReduces kind hKind).1)
          (by decide +kernel)
      (build_element _ _ _ hFits)
  have hItem : ReadsAs 0 4 [.endOfInput] w.contents
      (.node (.element w.tag ⟨w.attributes⟩ content)) :=
    readsAs_node .itemElement (.single hElement (List.Subset.refl _)) rfl
      (fun kind hKind => (hReduces kind hKind).2.1) (by decide +kernel) rfl
  have hItems : ReadsAs 0 2 [.endOfInput] w.contents
      (.nodes [.element w.tag ⟨w.attributes⟩ content]) :=
    readsAs_node .itemsOne (.single hItem (List.Subset.refl _)) rfl
      (fun kind hKind => (hReduces kind hKind).2.2.1) (by decide +kernel) rfl
  exact readsAs_node .programItems (.single hItems (List.Subset.refl _)) rfl
    (fun kind hKind => (hReduces kind hKind).2.2.2) (by decide +kernel) rfl

/-- Without attributes, the closing mark leads where dynamic content begins. -/
theorem readAllAs_dynamic (hAttributes : w.attributes = [])
    (hContent : List.Forall₂ PlainStatement w.statements content) :
    ∃ ps, ReadAllAs [.identifier, .endOfInput] 0
      ((.hash, .text "#") :: (.identifier, .text w.tag) :: (w.body ++ [(.hash, .text "#")])) ps
        dynamicMark := by
  have hMark : target? 0 (.t .hash) = some 26 := by decide +kernel
  have hTag : target? 26 (.t .identifier) = some tagEnd := by decide +kernel
  have hWritten : w.body = w.statements.flatMap statementTokens := by simp [body, hAttributes]
  rw [hWritten]
  by_cases hStatements : w.statements = []
  · have hClose : target? tagEnd (.t .hash) = some dynamicMark := by decide +kernel
    rw [hStatements]
    exact ⟨_, .token hMark _ (.token hTag _ (.token hClose _ (.nil dynamicMark)))⟩
  · have hClose : target? 125 (.t .hash) = some dynamicMark := by decide +kernel
    have hEnds : (tagEnd, 125) ∈ contentStates := by decide
    have hItems := readsAs_content hEnds hStatements hContent
    have hFits : firstKinds [.identifier, .endOfInput] [(.hash, .text "#")] ⊆ startOfStatement :=
      show [Terminal.hash] ⊆ startOfStatement by decide
    exact ⟨_,
      .token hMark _ (.token hTag _ (.cons hItems hFits (.token hClose _ (.nil dynamicMark))))⟩

end WrittenElement

namespace Parse

open PageScript.Derivation
open Lexer (Laid scan IsName apart_word detached_cons isLiteral_iff)

section parsing

variable {w : WrittenElement} {source : String} {content : List Node}

/-- A source in which an element with attributes is laid out is parsed to the
element. -/
theorem tree_of_attributes (hLaid : Laid w.contents source.toList)
    (hAttributes : w.attributes ≠ []) (hKeys : (w.attributes.map Prod.fst).Nodup)
    (hContent : List.Forall₂ PlainStatement w.statements content) :
    (parse .keep source).tree = .ok (.program [.element w.tag ⟨w.attributes⟩ content]) := by
  obtain ⟨hTokens, hFault⟩ := Lexer.collect_of_laid hLaid .start
  obtain ⟨d, hCovered, hValue, hGrows⟩ :=
    WrittenElement.readsAs_program hAttributes hKeys hContent _ hTokens
  have hRuns : Growth.Runs d.size (Growth.start (scan source).tokens) (Growth.finished d) := by
    have hWhole := hGrows [] [] rfl (.head _)
    rw [Growth.Grows, List.append_nil, hCovered] at hWhole
    exact hWhole
  have hOutcome : (parse .keep source).outcome = .accepted _ :=
    accepted_of_runs (fun t ht => Lexer.scanned_of_mem_scan ht) hFault hRuns hValue
  rw [Parsed.tree, hOutcome]

/-- The parse of an element without attributes stops behind the closing mark.
Without attributes that mark is taken for the beginning of dynamic content, for
which a parenthesis would have to follow. -/
theorem tree_of_no_attributes (hLaid : Laid w.contents source.toList)
    (hAttributes : w.attributes = [])
    (hContent : List.Forall₂ PlainStatement w.statements content) :
    ∃ unread, unread <:+ (scan source).tokens ∧ unread.map Token.content = w.closing ∧
      (parse .keep source).tree = .error (unfitting source (front unread)) := by
  obtain ⟨hTokens, hFault⟩ := Lexer.collect_of_laid hLaid .start
  obtain ⟨ps, hRow⟩ := WrittenElement.readAllAs_dynamic hAttributes hContent
  have hCut : w.contents = (.hash, .text "#") :: (.identifier, .text w.tag) ::
      (w.body ++ [(.hash, .text "#")]) ++
      w.closing := by
    simp [WrittenElement.contents]
  rw [hCut] at hTokens
  obtain ⟨read, unread, hSplit, hRead, hUnread⟩ := List.map_eq_append_iff.mp hTokens
  refine ⟨unread, ⟨read, hSplit.symm⟩, hUnread, ?_⟩
  obtain ⟨ds, hCovered, hValues, -, hGrows⟩ := hRow.exists_growsAll hRead
  have hAhead : headKind unread ∈ [Terminal.identifier, .endOfInput] := by
    have hFirst : headKind (unread ++ []) ∈ firstKinds [.endOfInput] w.closing :=
      headKind_mem_firstKinds hUnread (.head _)
    rw [List.append_nil] at hFirst
    exact w.firstKinds_closing hFirst
  obtain ⟨final, hTop, hAll⟩ := hGrows [] unread rfl hAhead
  obtain ⟨hRuns, upper, hFinal, hParts⟩ := hAll.runs
  rw [hCovered, ← hSplit] at hRuns
  have hStuck : (⟨final, unread⟩ : Growth).decision = none := by
    have hTable : ∀ kind ∈ [Terminal.identifier, .endOfInput], decision dynamicMark kind =
        none := by decide +kernel
    rw [Growth.decision, hTop]
    exact hTable _ hAhead
  have hValued : Valued .keep final := by
    rw [hFinal, List.append_nil]
    exact .of_parts (hParts ▸ hValues)
  exact tree_of_stuck (fun t ht => Lexer.scanned_of_mem_scan ht) hFault hRuns hStuck hValued

end parsing

/-- An element that has attributes, all of different names, is parsed to its
node, with or without content and with either end. An element that has no
attributes, with or without content, is refused: its closing mark is taken for
the beginning of dynamic content, and the complaint is about what stands behind
the mark. -/
theorem parse_element (w : WrittenElement) (source : String) (content : List Node)
    (hLaid : Laid w.contents source.toList) (hKeys : (w.attributes.map Prod.fst).Nodup)
    (hContent : List.Forall₂ PlainStatement w.statements content) :
    (w.attributes ≠ [] →
      (parse .keep source).tree = .ok (.program [.element w.tag ⟨w.attributes⟩ content])) ∧
    (w.attributes = [] →
      ∃ unread, unread <:+ (scan source).tokens ∧ unread.map Token.content = w.closing ∧
        (parse .keep source).tree = .error (unfitting source (front unread))) :=
  ⟨fun hAttributes => tree_of_attributes hLaid hAttributes hKeys hContent,
    fun hAttributes => tree_of_no_attributes hLaid hAttributes hContent⟩

/-- A paragraph with two attributes, a definition and a shown value, closed by
name. -/
def paragraph : WrittenElement where
  tag := "p"
  attributes := [("id", "top"), ("lang", "en")]
  statements :=
    [[(.define, .text "define"), (.identifier, .text "x"), (.equals, .text "="),
      (.text, .text "Hello")], [(.showWord, .text "show"), (.identifier, .text "x")]]
  closesByName := true

def paragraphScript : String :=
  "#p id:\"top\" lang:\"en\"\\\\ define x = \"Hello\"\\\\ show x\\\\ #p"

theorem isName_p : IsName "p" :=
  ⟨⟨'p', [], rfl, by decide, List.all_eq_true.mp rfl⟩, by decide⟩

/-- The paragraph is laid out in its script. -/
theorem laid_paragraphScript : Laid paragraph.contents paragraphScript.toList := by
  have hX : IsName "x" := ⟨⟨'x', [], rfl, by decide, List.all_eq_true.mp rfl⟩, by decide⟩
  have hId : IsName "id" :=
    ⟨⟨'i', ['d'], rfl, by decide, List.all_eq_true.mp rfl⟩, by decide⟩
  have hLang : IsName "lang" :=
    ⟨⟨'l', ['a', 'n', 'g'], rfl, by decide, List.all_eq_true.mp rfl⟩, by decide⟩
  have hTop : Run.IsLiteralBody "top".toList := isLiteral_iff.mp ⟨"top\"".toList, [], rfl⟩
  have hEn : Run.IsLiteralBody "en".toList := isLiteral_iff.mp ⟨"en\"".toList, [], rfl⟩
  have hText : Run.IsLiteralBody "Hello".toList := isLiteral_iff.mp ⟨"Hello\"".toList, [], rfl⟩
  have hEnd : Laid [(.terminator, .text "\\\\"), (.hash, .text "#"), (.identifier, .text "p")]
      "\\\\ #p".toList :=
    .spaced (.mark (by decide)) (.mark (by decide) (stops_cons (by decide) _)
      (.cons (.name isName_p) ((apart_word (.head _)).mpr stops_nil) .nil))
  have hShown : Laid ((.terminator, .text "\\\\") :: (.showWord, .text "show") ::
      (.identifier, .text "x") :: _)
      "\\\\ show x\\\\ #p".toList :=
    .spaced (.mark (by decide)) (.spaced (.reserved (by decide) (by decide))
      (.cons (.name hX) (detached_cons (by decide) _ _) hEnd))
  have hDefined : Laid ((.terminator, .text "\\\\") :: (.define, .text "define") ::
      (.identifier, .text "x") ::
      (.equals, .text "=") :: (.text, .text "Hello") :: _)
        "\\\\ define x = \"Hello\"\\\\ show x\\\\ #p".toList :=
    .spaced (.mark (by decide)) (.spaced (.reserved (by decide) (by decide)) (.spaced (.name hX)
      (.spaced (.mark (by decide)) (.cons (.literal hText) trivial hShown))))
  have hAttributes : Laid ((.identifier, .text "id") :: (.colon, .text ":") ::
      (.text, .text "top") ::
      (.identifier, .text "lang") :: (.colon, .text ":") :: (.text, .text "en") :: _)
      "id:\"top\" lang:\"en\"\\\\ define x = \"Hello\"\\\\ show x\\\\ #p".toList :=
    .cons (.name hId) (detached_cons (by decide) _ _) (.mark (by decide) (stops_cons (by decide) _)
      (.spaced (.literal hTop) (.cons (.name hLang) (detached_cons (by decide) _ _)
        (.mark (by decide) (stops_cons (by decide) _) (.cons (.literal hEn) trivial hDefined)))))
  exact .mark (by decide) (stops_cons (by decide) _) (.spaced (.name isName_p) hAttributes)

theorem plainStatements_paragraph : List.Forall₂ PlainStatement paragraph.statements
    [.declaration "x" none (.string "Hello") false, .showStatement (.identifier "x")] := by
  have hText : Means .keep (.n .expression) [(.text, .text "Hello")] (.node (.string "Hello")) :=
    means_expression (means_primary .text ⟨rfl, rfl⟩ rfl rfl)
  have hName : Means .keep (.n .expression) [(.identifier, .text "x")] (.node (.identifier "x")) :=
    means_expression (means_primary .identifier ⟨rfl, rfl⟩ rfl rfl)
  exact .cons (plainStatement_define "x" hText) (.cons (plainStatement_show hName) .nil)

/-- The paragraph is parsed with both attributes and both statements. -/
theorem parse_element_paragraphScript : (parse .keep paragraphScript).tree =
    .ok (.program [.element "p" ⟨[("id", "top"), ("lang", "en")]⟩
      [.declaration "x" none (.string "Hello") false, .showStatement (.identifier "x")]]) :=
  (parse_element paragraph paragraphScript _ laid_paragraphScript (by decide)
    plainStatements_paragraph).1
    (List.cons_ne_nil _ _)

/-- A paragraph that only shows a text. -/
def greeting : WrittenElement :=
  ⟨"p", [], [[(.showWord, .text "show"), (.text, .text "Hello, World!")]], false⟩

def greetingScript : String := "#p   show \"Hello, World!\"\\\\ #"

theorem laid_greetingScript : Laid greeting.contents greetingScript.toList := by
  have hText : Run.IsLiteralBody "Hello, World!".toList :=
    isLiteral_iff.mp ⟨"Hello, World!\"".toList, [], rfl⟩
  have hEnd : Laid [(.terminator, .text "\\\\"), (.hash, .text "#")] "\\\\ #".toList :=
    .spaced (.mark (by decide)) (.mark (by decide) stops_nil .nil)
  have hShown : Laid ((.showWord, .text "show") :: (.text, .text "Hello, World!") :: _)
      "show \"Hello, World!\"\\\\ #".toList :=
    .spaced (.reserved (by decide) (by decide)) (.cons (.literal hText) trivial hEnd)
  exact .mark (by decide) (stops_cons (by decide) _)
    (.spaced (.name isName_p) (.blank (by decide) (.blank (by decide) hShown)))

/-- A paragraph that only shows a text is written like any other, but is not
parsed. -/
theorem parse_greetingScript : Laid greeting.contents greetingScript.toList ∧
    (parse .keep greetingScript).tree = .error (.syntactic .unexpectedEnd) := by
  have hText : Means .keep (.n .expression) [(.text, .text "Hello, World!")]
      (.node (.string "Hello, World!")) :=
    means_expression (means_primary .text ⟨rfl, rfl⟩ rfl rfl)
  obtain ⟨unread, -, hUnread, hTree⟩ :=
    tree_of_no_attributes laid_greetingScript rfl (.cons (plainStatement_show hText) .nil)
  cases List.map_eq_nil_iff.mp hUnread
  exact ⟨laid_greetingScript, hTree⟩

end Parse

end PageScript
