import PageScript.Proofs.Grammar.Derivation
import PageScript.Proofs.Token.Scanned

/-! The values of derivations. A derivation over scanned tokens has a value of
the kind that its symbol stands for; where it has none, one of the three rules
that can refuse is to blame. Where elements are refused, a program with a value
has none. -/
namespace PageScript.Derivation

open GrammarSymbol

variable {policy : ElementPolicy}

/-- If the value of each derivation is of the kind of its symbol, the values of
derivations in a row are of the kinds of their symbols. -/
theorem fitAll_of_values {ds : List Derivation} {phrases : List Phrase}
    (hFits : ∀ d ∈ ds, ∀ p, d.value policy = .ok p → d.symbol.shape.Fits p)
    (h : values policy ds = .ok phrases) : FitAll (ds.map symbol) phrases := by
  induction ds generalizing phrases with
  | nil =>
      cases h
      exact .nil
  | cons d rest ih =>
      obtain ⟨p, ps, rfl, hp, hps⟩ := values_cons_inv h
      exact .cons (hFits d (.head _) p hp) (ih (fun e he => hFits e (.tail _ he)) hps)

/-- The value of a derivation is of the kind that its symbol stands for. -/
theorem Valid.value_fits {d : Derivation} (hd : d.Valid) (hTokens : ∀ t ∈ d.tokens, t.Scanned)
    {p : Phrase} (h : d.value policy = .ok p) : d.symbol.shape.Fits p := by
  induction hd generalizing p with
  | leaf t =>
      cases h
      exact (hTokens t (.head _)).fits
  | @node rule parts joins valid ih =>
      obtain ⟨phrases, hParts, hBuild⟩ := value_node_inv h
      have hFits : FitAll (parts.map symbol) phrases :=
        fitAll_of_values (fun d hd p hp => ih d hd (fun t ht => hTokens t (mem_tokensAll hd ht)) hp)
          hParts
      rw [joins] at hFits
      exact Build.build_fits hFits hBuild

/-- A program has a list of nodes. -/
theorem Derives.value_program {d : Derivation} {tokens : List Token}
    (hd : d.Derives (.n .program) tokens) (hTokens : ∀ t ∈ tokens, t.Scanned) {p : Phrase}
    (h : d.value policy = .ok p) :
    ∃ ns, p = .node (.program ns) := by
  have hFits := hd.valid.value_fits (by rwa [hd.tokens_eq]) h
  rw [hd.symbol_eq] at hFits
  cases hFits with
  | program ns => exact ⟨ns, rfl⟩

/-- A rule that fails to build from what its parts stand for is one that can
refuse. -/
theorem canRefuse_of_error {rule : Rule} {parts : List Derivation} {phrases : List Phrase}
    {fault : Fault} (hNode : (node rule parts).Valid)
    (hTokens : ∀ t ∈ tokensAll parts, t.Scanned) (hParts : values policy parts = .ok phrases)
    (h : (Build.build policy rule phrases).result = .error fault) : rule.canRefuse = true := by
  cases hNode with
  | node joins valid =>
      have hFits : FitAll (parts.map symbol) phrases :=
        fitAll_of_values (fun d hd p hp =>
          (valid d hd).value_fits (fun t ht => hTokens t (mem_tokensAll hd ht)) hp) hParts
      rw [joins] at hFits
      exact Build.canRefuse_of_error hFits h

/-- Without element marks, only a function can be refused. -/
theorem Valid.eq_functionDeclaration {rule : Rule} {parts : List Derivation}
    (hNode : (Derivation.node rule parts).Valid)
    (hHash : ∀ t ∈ tokensAll parts, t.kind ≠ .hash) (hRule : rule.canRefuse = true) :
    rule = .functionDeclaration := by
  by_cases hPart : rule.production.phrase.isElementPart = true
  · obtain ⟨t, ht, hKind⟩ := hNode.exists_hash rfl hPart
    exact absurd hKind (hHash t ht)
  · cases rule with
    | functionDeclaration => rfl
    | element => exact absurd rfl hPart
    | dynamicContent => exact absurd rfl hPart
    | _ => cases hRule

/-- Apart from closing tags, a part of an element is an element or dynamic
content. -/
theorem eq_element_or_eq_dynamicContent {rule : Rule}
    (h : rule.production.phrase.isElementPart = true)
    (hClosing : rule.production.phrase ≠ .closingTag) :
    rule = .element ∨ rule = .dynamicContent := by
  cases rule with
  | element => exact .inl rfl
  | dynamicContent => exact .inr rfl
  | closingUnnamed => exact absurd rfl hClosing
  | closingNamed => exact absurd rfl hClosing
  | _ => cases h

/-- Where elements are refused, what has a value has nothing to do with
elements. A closing tag alone has a value, but only an element has one in
it. -/
theorem Valid.elementFree_of_value {d : Derivation} (hd : d.Valid)
    (hSymbol : d.symbol ≠ .n .closingTag) {p : Phrase} (h : d.value .refuse = .ok p) :
    d.ElementFree := by
  induction hd generalizing p with
  | leaf t => exact .leaf t
  | @node rule parts joins valid ih =>
      obtain ⟨phrases, hParts, hBuild⟩ := value_node_inv h
      have hElement : rule ≠ .element := by
        rintro rfl
        cases (Build.build_element_ok hBuild).1
      have hDynamic : rule ≠ .dynamicContent := by
        rintro rfl
        exact Build.build_dynamicContent_ne_ok hBuild
      have hClosing : ∀ e ∈ parts, e.symbol ≠ .n .closingTag := by
        intro e he hTag
        refine hElement (rule.eq_element_of_closingTag ?_)
        rw [← joins, ← hTag]
        exact List.mem_map_of_mem he
      have hFree : ∀ e ∈ parts, e.ElementFree := by
        intro e he
        obtain ⟨q, hq⟩ := exists_value_of_mem hParts he
        exact ih e he (hClosing e he) hq
      refine .node (elementFree_rule joins ?_ ?_) hFree
      · rw [Bool.eq_false_iff]
        intro hPart
        rcases eq_element_or_eq_dynamicContent hPart
          (fun hTag => hSymbol (congrArg _ hTag)) with rfl | rfl
        · exact hElement rfl
        · exact hDynamic rfl
      · intro e he phrase hPhrase
        cases hFree e he with
        | leaf t => cases hPhrase
        | node hRule _ =>
            cases hPhrase
            rw [Rule.elementFree, Bool.and_eq_true, Bool.not_eq_true'] at hRule
            exact hRule.1

end PageScript.Derivation
