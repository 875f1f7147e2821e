import PageScript.Grammar.Build
import PageScript.Proofs.Grammar.Rules

/-! Derivations of the grammar: the tokens they cover, the number of rules they
use, and the phrase that the rules build from them. -/
namespace PageScript

/-- A token, or a rule applied to derivations. -/
inductive Derivation where
  | leaf (t : Token)
  | node (rule : Rule) (parts : List Derivation)

namespace Derivation

/-- The symbol a derivation stands for. -/
def symbol : Derivation → GrammarSymbol
  | leaf t => .t t.kind
  | node rule _ => .n rule.production.phrase

mutual

/-- The tokens at the leaves, from left to right. -/
def tokens : Derivation → List Token
  | leaf t => [t]
  | node _ parts => tokensAll parts

def tokensAll : List Derivation → List Token
  | [] => []
  | d :: rest => d.tokens ++ tokensAll rest

end

mutual

/-- How many tokens and rules a derivation has together. -/
def size : Derivation → Nat
  | leaf _ => 1
  | node _ parts => sizeAll parts + 1

def sizeAll : List Derivation → Nat
  | [] => 0
  | d :: rest => d.size + sizeAll rest

end

mutual

/-- What the rules build from the tokens. The parts of a rule come first, from
left to right, and the first rule that cannot build ends it. -/
def value (policy : ElementPolicy) : Derivation → Except Fault Phrase
  | leaf t => .ok (.leaf t.value)
  | node rule parts => do
    let phrases ← values policy parts
    (Build.build policy rule phrases).result

def values (policy : ElementPolicy) : List Derivation → Except Fault (List Phrase)
  | [] => .ok []
  | d :: rest => do
    let phrase ← d.value policy
    let phrases ← values policy rest
    return phrase :: phrases

end

/-- Every rule joins the symbols of its parts. -/
inductive Valid : Derivation → Prop where
  | leaf (t : Token) : Valid (.leaf t)
  | node {rule : Rule} {parts : List Derivation}
      (joins : parts.map symbol = rule.production.symbols)
      (valid : ∀ d ∈ parts, Valid d) : Valid (.node rule parts)

/-- The derivation shows that the tokens form this symbol. -/
structure Derives (d : Derivation) (symbol : GrammarSymbol) (tokens : List Token) : Prop where
  valid : d.Valid
  symbol_eq : d.symbol = symbol
  tokens_eq : d.tokens = tokens

theorem tokensAll_append (ds es : List Derivation) :
    tokensAll (ds ++ es) = tokensAll ds ++ tokensAll es := by
  induction ds with
  | nil => rfl
  | cons d rest ih => simp only [List.cons_append, tokensAll, ih, List.append_assoc]

theorem tokensAll_leaves (tokens : List Token) : tokensAll (tokens.map leaf) = tokens := by
  induction tokens with
  | nil => rfl
  | cons t tokens ih =>
      rw [List.map_cons, tokensAll, ih]
      rfl

/-- Each derivation in a row covers some of the tokens that all cover. -/
theorem mem_tokensAll {ds : List Derivation} {d : Derivation} (hd : d ∈ ds) {t : Token}
    (ht : t ∈ d.tokens) : t ∈ tokensAll ds := by
  induction ds with
  | nil => cases hd
  | cons e rest ih =>
      rw [tokensAll, List.mem_append]
      rcases List.mem_cons.mp hd with rfl | hRest
      · exact .inl ht
      · exact .inr (ih hRest)

theorem sizeAll_append (ds es : List Derivation) :
    sizeAll (ds ++ es) = sizeAll ds + sizeAll es := by
  induction ds with
  | nil => simp [sizeAll]
  | cons d rest ih => simp only [List.cons_append, sizeAll, ih, Nat.add_assoc]

section values

variable {policy : ElementPolicy}

theorem values_cons_ok {d : Derivation} {ds : List Derivation} {phrase : Phrase}
    {phrases : List Phrase} (hd : d.value policy = .ok phrase)
    (hds : values policy ds = .ok phrases) :
    values policy (d :: ds) = .ok (phrase :: phrases) := by
  rw [values, hd, hds]
  rfl

theorem values_leaves (policy : ElementPolicy) (tokens : List Token) :
    values policy (tokens.map leaf) = .ok (tokens.map fun t => .leaf t.value) := by
  induction tokens with
  | nil => rfl
  | cons t tokens ih => exact values_cons_ok rfl ih

/-- Derivations in a row have values only if the first one has one and the
others have theirs. -/
theorem values_cons_inv {d : Derivation} {ds : List Derivation} {phrases : List Phrase}
    (h : values policy (d :: ds) = .ok phrases) :
    ∃ p ps, phrases = p :: ps ∧ d.value policy = .ok p ∧ values policy ds = .ok ps := by
  rw [values] at h
  cases hd : d.value policy with
  | error fault => rw [hd] at h; cases h
  | ok p =>
      cases hds : values policy ds with
      | error fault => rw [hd, hds] at h; cases h
      | ok ps =>
          rw [hd, hds] at h
          cases h
          exact ⟨p, ps, rfl, rfl, rfl⟩

theorem value_node_ok {rule : Rule} {parts : List Derivation} {phrases : List Phrase}
    (h : values policy parts = .ok phrases) :
    (node rule parts).value policy = (Build.build policy rule phrases).result := by
  rw [value, h]
  rfl

/-- A node has a value only if all its parts have values and the rule builds it
from them. -/
theorem value_node_inv {rule : Rule} {parts : List Derivation} {phrase : Phrase}
    (h : (node rule parts).value policy = .ok phrase) :
    ∃ phrases, values policy parts = .ok phrases ∧
      (Build.build policy rule phrases).result = .ok phrase := by
  rw [value] at h
  cases hParts : values policy parts with
  | error fault => rw [hParts] at h; cases h
  | ok phrases =>
      rw [hParts] at h
      exact ⟨phrases, rfl, h⟩

/-- A derivation that has a value has one in each of its parts. -/
theorem exists_value_of_mem {ds : List Derivation} {phrases : List Phrase}
    (h : values policy ds = .ok phrases) {d : Derivation} (hd : d ∈ ds) :
    ∃ phrase, d.value policy = .ok phrase := by
  induction ds generalizing phrases with
  | nil => cases hd
  | cons e rest ih =>
      obtain ⟨p, ps, -, hp, hps⟩ := values_cons_inv h
      rcases List.mem_cons.mp hd with rfl | hRest
      · exact ⟨p, hp⟩
      · exact ih hps hRest

end values

section beginnings

/-- Where derivations in a row cover no token, none of them does. -/
theorem tokens_eq_nil_of_mem {ds : List Derivation} (h : tokensAll ds = []) {d : Derivation}
    (hd : d ∈ ds) :
    d.tokens = [] := by
  induction ds with
  | nil => cases hd
  | cons e rest ih =>
      rw [tokensAll, List.append_eq_nil_iff] at h
      rcases List.mem_cons.mp hd with rfl | hRest
      · exact h.1
      · exact ih h.2 hRest

/-- Only a phrase that can vanish has a derivation without tokens. -/
theorem Valid.canVanish {d : Derivation} (hd : d.Valid) (h : d.tokens = []) :
    d.symbol.canVanish = true := by
  induction hd with
  | leaf t => simp [tokens] at h
  | @node rule parts joins _ ih =>
      rw [tokens] at h
      have hSymbols : rule.production.symbols.all GrammarSymbol.canVanish = true := by
        rw [← joins, List.all_map, List.all_eq_true]
        exact fun d hd => ih d hd (tokens_eq_nil_of_mem h hd)
      exact rule.canVanish_of_symbols hSymbols

/-- The kind of the first token, or the end of the input if there is none. -/
def headKind : List Token → Terminal
  | [] => .endOfInput
  | t :: _ => t.kind

/-- What stands first in some derivations followed by other tokens, if each of
them begins as its symbol can. -/
theorem headKind_mem_opening {ds : List Derivation} (hValid : ∀ d ∈ ds, d.Valid)
    (hStarts : ∀ d ∈ ds, ∀ t rest, d.tokens = t :: rest → t.kind ∈ d.symbol.starts)
    {after : TerminalSet} {following : List Token}
    (hAfter : tokensAll ds = [] → headKind following ∈ after) :
    headKind (tokensAll ds ++ following) ∈ GrammarSymbol.opening after (ds.map symbol) := by
  induction ds with
  | nil => exact hAfter rfl
  | cons d rest ih =>
      have hRest := ih (fun e he => hValid e (.tail _ he)) (fun e he => hStarts e (.tail _ he))
      rw [List.map_cons, GrammarSymbol.opening, tokensAll]
      cases hTokens : d.tokens with
      | nil =>
          have hVanish := (hValid d (.head _)).canVanish hTokens
          rw [if_pos hVanish, TerminalSet.mem_union]
          exact .inr (hRest fun h => hAfter (by rw [tokensAll, hTokens, h]; rfl))
      | cons t more =>
          have hHead : t.kind ∈ d.symbol.starts := hStarts d (.head _) t more hTokens
          split
          · exact (TerminalSet.mem_union ..).mpr (.inl hHead)
          · exact hHead

/-- A derivation begins with a token that its symbol can begin with. -/
theorem Valid.head_mem_starts {d : Derivation} (hd : d.Valid) {t : Token} {rest : List Token}
    (h : d.tokens = t :: rest) : t.kind ∈ d.symbol.starts := by
  induction hd generalizing t rest with
  | leaf u =>
      rw [tokens, List.cons.injEq] at h
      rw [← h.1]
      exact (TerminalSet.mem_ofList _ _).mpr (.head _)
  | @node rule parts joins valid ih =>
      rw [tokens] at h
      have hOpening : headKind (tokensAll parts ++ []) ∈
          GrammarSymbol.opening (.ofList []) (parts.map symbol) :=
        headKind_mem_opening valid (fun d hd t rest ht => ih d hd ht)
          (fun hNil => absurd (h.symm.trans hNil) (List.cons_ne_nil _ _))
      rw [h, joins] at hOpening
      exact TerminalSet.mem_of_subset rule.opening_subset_starts hOpening

end beginnings

section size

/-- If the tokens of each derivation pay for its rules and its surplus, all
tokens pay for all rules and the whole surplus. -/
theorem sizeAll_add_surplus_le {ds : List Derivation}
    (h : ∀ d ∈ ds, (d.size : Int) + d.symbol.surplus ≤
      GrammarSymbol.tokenPay * d.tokens.length) :
    (sizeAll ds : Int) + GrammarSymbol.surplusAll (ds.map symbol) ≤
      GrammarSymbol.tokenPay * (tokensAll ds).length := by
  induction ds with
  | nil => simp [sizeAll, tokensAll, GrammarSymbol.surplusAll]
  | cons d rest ih =>
      have hHead := h d (.head _)
      have hRest := ih fun e he => h e (.tail _ he)
      simp only [sizeAll, tokensAll, List.map_cons, GrammarSymbol.surplusAll, List.length_append]
      push_cast
      rw [Int.mul_add]
      omega

/-- The tokens of a derivation pay for all its rules, up to the surplus of its
symbol. -/
theorem Valid.size_add_surplus_le {d : Derivation} (hd : d.Valid) :
    (d.size : Int) + d.symbol.surplus ≤ GrammarSymbol.tokenPay * d.tokens.length := by
  induction hd with
  | leaf t => simp [size, tokens, symbol, GrammarSymbol.surplus, GrammarSymbol.tokenPay]
  | @node rule parts joins _ ih =>
      have hParts := sizeAll_add_surplus_le ih
      have hRule := rule.surplus_lt_surplusAll
      rw [← joins] at hRule
      simp only [size, tokens, symbol, GrammarSymbol.surplus]
      push_cast
      omega

end size

section elements

/-- No rule of the derivation has to do with elements. -/
inductive ElementFree : Derivation → Prop where
  | leaf (t : Token) : ElementFree (.leaf t)
  | node {rule : Rule} {parts : List Derivation} (rule_free : rule.elementFree = true)
      (parts_free : ∀ d ∈ parts, ElementFree d) : ElementFree (.node rule parts)

/-- A rule between phrases none of which is part of an element does not join
elements. -/
theorem elementFree_rule {rule : Rule} {parts : List Derivation}
    (joins : parts.map symbol = rule.production.symbols)
    (hPhrase : rule.production.phrase.isElementPart = false)
    (hParts : ∀ d ∈ parts, ∀ phrase, d.symbol = .n phrase → phrase.isElementPart = false) :
    rule.elementFree = true := by
  rw [Rule.elementFree, hPhrase, ← joins, List.all_map, Bool.not_false, Bool.true_and,
    List.all_eq_true]
  intro d hd
  cases hSymbol : d.symbol with
  | t kind => simp [hSymbol]
  | n phrase => simp [hSymbol, hParts d hd phrase hSymbol]

/-- Each part of an element begins with the element mark. -/
theorem Valid.exists_hash {d : Derivation} (hd : d.Valid) {phrase : Nonterminal}
    (hSymbol : d.symbol = .n phrase) (hPhrase : phrase.isElementPart = true) :
    ∃ t ∈ d.tokens, t.kind = .hash := by
  cases hd with
  | leaf t => cases hSymbol
  | @node rule parts joins _ =>
      cases hSymbol
      have hHead := rule.head_of_isElementPart hPhrase
      rw [← joins, List.head?_map] at hHead
      cases parts with
      | nil => cases hHead
      | cons first rest =>
          cases first with
          | leaf t =>
              have hKind : t.kind = .hash := by simpa [symbol] using hHead
              exact ⟨t, by simp [tokens, tokensAll], hKind⟩
          | node rule parts => simp [symbol] at hHead

/-- A derivation without element marks has nothing to do with elements. -/
theorem Valid.elementFree_of_no_hash {d : Derivation} (hd : d.Valid)
    (hHash : ∀ t ∈ d.tokens, t.kind ≠ .hash) : d.ElementFree := by
  induction hd with
  | leaf t => exact .leaf t
  | @node rule parts joins valid ih =>
      have hParts : ∀ d ∈ parts, ∀ t ∈ d.tokens, t.kind ≠ .hash := by
        intro d hd t ht
        exact hHash t (by rw [tokens]; exact mem_tokensAll hd ht)
      refine .node (elementFree_rule joins ?_ ?_) fun d hd => ih d hd (hParts d hd)
      · rw [Bool.eq_false_iff]
        intro hPart
        obtain ⟨t, ht, hKind⟩ := (Valid.node joins valid).exists_hash rfl hPart
        exact hHash t ht hKind
      · intro d hd phrase hSymbol
        rw [Bool.eq_false_iff]
        intro hPart
        obtain ⟨t, ht, hKind⟩ := (valid d hd).exists_hash hSymbol hPart
        exact hParts d hd t ht hKind

end elements

end Derivation

end PageScript
