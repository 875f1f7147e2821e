import Mathlib.Tactic.CasesM
import PageScript.Grammar.Build

/-! What kind of phrase each symbol of the grammar stands for. Every rule finds
the kinds it expects and makes the kind its own symbol stands for, so only the
three rules that can refuse ever fail to build. -/
namespace PageScript

/-- A kind of phrase. -/
inductive Shape where
  | absent | word | integer | decimal | truth | leaf
  | node | program | block | parameter | nodes
  /-- The inside of a block: a list of statements, or one element. -/
  | body
  | type | types | parameters | attributes | settings | elementBody | functionHead
  /-- What stands after the mark that closes an element: a name, or nothing. -/
  | closing
  deriving DecidableEq

namespace Shape

/-- The phrase is of this kind. -/
inductive Fits : Shape → Phrase → Prop where
  | absent : Fits absent .nothing
  | word (s : String) : Fits word (.leaf (.text s))
  | integer (n : Int) : Fits integer (.leaf (.int n))
  | decimal (x : Float) : Fits decimal (.leaf (.float x))
  | truth (b : Bool) : Fits truth (.leaf (.bool b))
  | leaf (v : Value) : Fits leaf (.leaf v)
  | node (n : Node) : Fits node (.node n)
  | program (ns : List Node) : Fits program (.node (.program ns))
  | block (ns : List Node) : Fits block (.node (.block ns))
  | parameter (p : Parameter) : Fits parameter (.node (.parameter p))
  | nodes (ns : List Node) : Fits nodes (.nodes ns)
  | statements (ns : List Node) : Fits body (.nodes ns)
  | element (n : Node) : Fits body (.node n)
  | type (t : Ty) : Fits type (.type t)
  | types (ts : List Ty) : Fits types (.types ts)
  | parameters (ps : List Parameter) : Fits parameters (.parameters ps)
  | attributes (table : Table String) : Fits attributes (.attributes table)
  | settings (table : Table Value) : Fits settings (.settings table)
  | elementBody (table : Table String) (content : List Node) :
      Fits elementBody (.elementBody table content)
  | functionHead (name : String) (ps : List Parameter) (result : Option Ty) (async : Bool) :
      Fits functionHead (.functionHead name ps result async)
  | closingName (s : String) : Fits closing (.leaf (.text s))
  | closingBare : Fits closing .nothing

end Shape

namespace GrammarSymbol

/-- The kind of phrase that a symbol stands for. -/
def shape : GrammarSymbol → Shape
  | t .integer => .integer
  | t .decimal => .decimal
  | t .boolean => .truth
  | t _ => .word
  | n .nothing | n .emptyBody => .absent
  | n .program => .program
  | n .items | n .statements | n .identifiers | n .contentItems | n .arguments => .nodes
  | n .blockBody => .body
  | n .functionHead => .functionHead
  | n .functionBody => .block
  | n .parameterList | n .parametersOpt | n .parameters => .parameters
  | n .parameter => .parameter
  | n .returnType | n .type => .type
  | n .typeName | n .transactionEnd => .word
  | n .genericArguments | n .types => .types
  | n .keyKind | n .settingsOpt | n .settings | n .setting => .settings
  | n .settingValue => .leaf
  | n .elementBody => .elementBody
  | n .attributes | n .attributePair => .attributes
  | n .closingTag => .closing
  | n _ => .node

/-- The phrases are of the kinds that the symbols stand for. -/
inductive FitAll : List GrammarSymbol → List Phrase → Prop where
  | nil : FitAll [] []
  | cons {X : GrammarSymbol} {Xs : List GrammarSymbol} {p : Phrase} {ps : List Phrase}
      (first : X.shape.Fits p) (others : FitAll Xs ps) : FitAll (X :: Xs) (p :: ps)

end GrammarSymbol

namespace Rule

/-- The rules that can refuse what they join. -/
def canRefuse : Rule → Bool
  | functionDeclaration | element | dynamicContent => true
  | _ => false

end Rule

namespace Build

open GrammarSymbol

/-- A rule that cannot refuse builds from phrases of the kinds it expects. The
parts are named by their kinds, and then the rule can be carried out. -/
theorem join_fits {rule : Rule} {parts : List Phrase} (h : FitAll rule.production.symbols parts)
    (hRule : rule.canRefuse = false) :
    ∃ p, join rule parts = some p ∧ (GrammarSymbol.n rule.production.phrase).shape.Fits p := by
  cases rule with
  | functionDeclaration => cases hRule
  | element => cases hRule
  | dynamicContent => cases hRule
  | _ =>
      clear hRule
      casesm* FitAll _ _, Shape.Fits _ _
      all_goals exact ⟨_, rfl, by constructor⟩

theorem build_of_join (policy : ElementPolicy) {rule : Rule} {parts : List Phrase} {p : Phrase}
    (hRule : rule.canRefuse = false) (h : join rule parts = some p) :
    (build policy rule parts).result = .ok p := by
  unfold build
  split
  · cases hRule
  · cases hRule
  · cases hRule
  · rw [h]

theorem functionOf_ok {name : String} {parameters : List Parameter} {result : Option Ty}
    {async : Bool} {body : Node} {statements : List Node} {p : Phrase}
    (h : (functionOf name parameters result async body statements).result = .ok p) :
    ∃ n, p = .node n := by
  rw [functionOf] at h
  split at h
  · cases h
  · dsimp only at h
    split at h <;> cases h
    exact ⟨_, rfl⟩

/-- The rule for functions makes a node of its parts, if it does not refuse
them. -/
theorem buildFunction_ok {parts : List Phrase} {p : Phrase}
    (h : (buildFunction parts).result = .ok p) :
    ∃ n, p = .node n := by
  rw [buildFunction.eq_def] at h
  split at h
  · split at h
    · exact functionOf_ok h
    · exact functionOf_ok h
    all_goals cases h
  · cases h

/-- Elements are only built where they are kept. -/
theorem buildElement_ok {policy : ElementPolicy} {tag : String} {attributes : Table String}
    {content : List Node} {closing : Option String} {p : Phrase}
    (h : buildElement policy tag attributes content closing = .ok p) :
    policy = .keep ∧ ∃ n, p = .node n := by
  have hFinish : buildElement.finish policy tag attributes content = .ok p := by
    rw [buildElement.eq_def] at h
    split at h
    · split at h
      · exact h
      · cases h
    · exact h
  cases policy with
  | keep => cases hFinish; exact ⟨rfl, _, rfl⟩
  | refuse =>
      rw [buildElement.finish] at hFinish
      cases hContent : checkContent content with
      | ok _ => rw [hContent] at hFinish; cases hFinish
      | error fault => rw [hContent] at hFinish; cases hFinish

/-- An element is built only where elements are kept, and then it is a node. -/
theorem build_element_ok {policy : ElementPolicy} {parts : List Phrase} {p : Phrase}
    (h : (build policy .element parts).result = .ok p) : policy = .keep ∧ ∃ n, p = .node n := by
  unfold build at h
  dsimp only at h
  split at h
  · exact buildElement_ok h
  · exact buildElement_ok h
  · cases h

theorem build_dynamicContent_ne_ok {policy : ElementPolicy} {parts : List Phrase} {p : Phrase} :
    (build policy .dynamicContent parts).result ≠ .ok p := by
  intro h
  cases h

/-- What a rule builds is of the kind that its symbol stands for. -/
theorem build_fits {policy : ElementPolicy} {rule : Rule} {parts : List Phrase} {p : Phrase}
    (hParts : FitAll rule.production.symbols parts) (h : (build policy rule parts).result = .ok p) :
    (GrammarSymbol.n rule.production.phrase).shape.Fits p := by
  cases hRule : rule.canRefuse with
  | false =>
      obtain ⟨q, hJoin, hFits⟩ := join_fits hParts hRule
      rw [build_of_join policy hRule hJoin] at h
      cases h
      exact hFits
  | true =>
      cases rule with
      | functionDeclaration =>
          obtain ⟨n, rfl⟩ := buildFunction_ok h
          exact .node n
      | element =>
          obtain ⟨-, n, rfl⟩ := build_element_ok h
          exact .node n
      | dynamicContent => exact absurd h build_dynamicContent_ne_ok
      | _ => cases hRule

/-- Only three rules can fail to build. -/
theorem canRefuse_of_error {policy : ElementPolicy} {rule : Rule} {parts : List Phrase}
    {fault : Fault} (hParts : FitAll rule.production.symbols parts)
    (h : (build policy rule parts).result = .error fault) :
    rule.canRefuse = true := by
  cases hRule : rule.canRefuse with
  | true => rfl
  | false =>
      obtain ⟨q, hJoin, -⟩ := join_fits hParts hRule
      rw [build_of_join policy hRule hJoin] at h
      cases h

end Build

end PageScript
