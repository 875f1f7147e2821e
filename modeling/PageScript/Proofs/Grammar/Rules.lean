import PageScript.Grammar.Automaton
import PageScript.Proofs.Token.TerminalSet

/-! Facts about the grammar that are read off its rules: which phrases can be
empty, what a phrase can begin with, and how many rules the tokens of a phrase
can pay for. Each is a table over the phrases, checked once against every
rule. -/
namespace PageScript

namespace Rule

/-- How many rules there are. -/
def count : Nat := 168

def all : List Rule :=
  (List.range count).map Rule.ofNat

theorem mem_all (r : Rule) : r ∈ all := by
  refine List.mem_map.mpr ⟨r.ctorIdx, List.mem_range.mpr ?_, Rule.ofNat_ctorIdx r⟩
  cases r <;> decide

/-- What is checked for the list of all rules holds of every rule. -/
theorem of_all {p : Rule → Bool} (h : all.all p = true) (r : Rule) : p r = true :=
  List.all_eq_true.mp h r (mem_all r)

/-- The rules that make a phrase. -/
def ofPhrase (phrase : Nonterminal) : List Rule :=
  all.filter (·.production.phrase = phrase)

/-- Every rule is among those for the phrase that it makes. -/
theorem mem_ofPhrase (r : Rule) : r ∈ ofPhrase r.production.phrase := by
  simp [ofPhrase, mem_all]

end Rule

namespace Nonterminal

/-- The phrases that can be made of no tokens. -/
def canVanish : Nonterminal → Bool
  | nothing | emptyBody | program | blockBody | parametersOpt | returnType | settingsOpt | arguments
  | elementBody => true
  | _ => false

/-- Token kinds that include all those a phrase can begin with. Phrases that
begin like a statement are not told apart. -/
def starts : Nonterminal → List Terminal
  | nothing | emptyBody => []
  | element | dynamicContent | closingTag => [.hash]
  | attributes | attributePair | parameters | parametersOpt | parameter | identifiers =>
    [.identifier]
  | parameterList => [.openParen]
  | returnType => [.colon]
  | type | typeName | types => [.identifier, .typeWord]
  | genericArguments => [.less]
  | transactionEnd => [.commit, .rollback]
  | keyKind => [.typeWord]
  | settingsOpt => [.comma]
  | settings | setting => [.identifier, .db, .size, .algorithm, .key, .data, .signature]
  | settingValue => [.text, .integer]
  | arguments => .comma :: Automaton.startOfStatement
  | _ => Automaton.startOfStatement

/-- The phrases that elements are recognised by: each begins with the element
mark. -/
def isElementPart : Nonterminal → Bool
  | element | closingTag | dynamicContent => true
  | _ => false

/-- How many of the rules that its tokens pay for a phrase leaves over, at
least. A phrase made of no tokens has a debt. -/
def surplus : Nonterminal → Int
  | nothing | emptyBody => -1
  | program | blockBody | parametersOpt | returnType | settingsOpt | arguments | elementBody => -2
  | items | functionBody | parameters | types | settings | attributes | contentItems => 10
  | item | type => 11
  | statement => 20
  | cryptoStatement | quantumStatement => 21
  | expression => 30
  | assignment => 31
  | disjunction => 32
  | conjunction => 33
  | equality => 34
  | relation => 35
  | sum => 36
  | product => 37
  | unary => 38
  | postfixed => 39
  | primary => 40
  | _ => 22

end Nonterminal

namespace GrammarSymbol

/-- How many rules one token pays for. -/
def tokenPay : Nat := 100

def canVanish : GrammarSymbol → Bool
  | t _ => false
  | n phrase => phrase.canVanish

def starts : GrammarSymbol → TerminalSet
  | t kind => .ofList [kind]
  | n phrase => .ofList phrase.starts

/-- A token pays for itself first. -/
def surplus : GrammarSymbol → Int
  | t _ => tokenPay - 1
  | n phrase => phrase.surplus

/-- The surplus of some symbols together. -/
def surplusAll : List GrammarSymbol → Int
  | [] => 0
  | X :: rest => X.surplus + surplusAll rest

/-- What the symbols can begin with when they stand before `after`. -/
def opening (after : TerminalSet) : List GrammarSymbol → TerminalSet
  | [] => after
  | X :: rest => if X.canVanish then X.starts.union (opening after rest) else X.starts

end GrammarSymbol

namespace Rule

open GrammarSymbol

/-- A phrase can be empty if all symbols of one of its rules can be. -/
theorem canVanish_of_symbols (r : Rule)
    (h : r.production.symbols.all GrammarSymbol.canVanish = true) :
    r.production.phrase.canVanish = true := by
  have hAll : all.all (fun r => !r.production.symbols.all GrammarSymbol.canVanish ||
      r.production.phrase.canVanish) = true := by decide +kernel
  simpa [h] using of_all hAll r

/-- What the symbols of a rule can begin with, the phrase that it makes can
begin with. -/
theorem opening_subset_starts (r : Rule) :
    (opening (.ofList []) r.production.symbols).subset (.ofList r.production.phrase.starts) =
      true := by
  have hAll : all.all (fun r => (opening (.ofList []) r.production.symbols).subset
      (.ofList r.production.phrase.starts)) = true := by decide +kernel
  exact of_all hAll r

/-- A rule is paid for by the symbols it joins. -/
theorem surplus_lt_surplusAll (r : Rule) :
    r.production.phrase.surplus + 1 ≤ surplusAll r.production.symbols := by
  have hAll : all.all (fun r => decide (r.production.phrase.surplus + 1 ≤
      surplusAll r.production.symbols)) = true := by decide +kernel
  exact of_decide_eq_true (of_all hAll r)

/-- The rule has nothing to do with elements. -/
def elementFree (r : Rule) : Bool :=
  !r.production.phrase.isElementPart && r.production.symbols.all fun
    | t _ => true
    | n phrase => !phrase.isElementPart

/-- Every part of an element begins with the token that announces elements. -/
theorem head_of_isElementPart (r : Rule) (h : r.production.phrase.isElementPart = true) :
    r.production.symbols.head? = some (t .hash) := by
  have hAll : all.all (fun r => !r.production.phrase.isElementPart ||
      decide (r.production.symbols.head? = some (t .hash))) = true := by decide +kernel
  simpa [h] using of_all hAll r

theorem eq_element_of_closingTag (r : Rule) (h : n .closingTag ∈ r.production.symbols) :
    r = .element := by
  have hAll : all.all (fun r => !r.production.symbols.contains (n .closingTag) ||
      decide (r = .element)) = true := by decide +kernel
  simpa [h] using of_all hAll r

end Rule

end PageScript
