import PageScript.Proofs.Automaton.Completeness

/-! How the automaton reads elements. Inside an element it reads every
statement that is not a bare expression. A mark behind attributes, or behind
attributes and content, closes the element. Behind content alone, or behind the
bare tag, the mark is taken for the beginning of dynamic content, and nothing
but a parenthesis fits after it. -/
namespace PageScript.Automaton

open PageScript.Derivation GrammarSymbol

/-! ### Statements inside an element -/

/-- The phrases that a statement other than a bare expression can begin
with. -/
def statementHeads : List Nonterminal :=
  [.variableDeclaration, .constDeclaration, .showStatement, .saveStatement, .deleteStatement,
    .returnStatement, .throwStatement, .connectStatement, .queryStatement, .cryptoStatement,
    .quantumStatement, .functionDeclaration, .classDeclaration, .ifStatement, .whileStatement,
    .forStatement, .tryStatement, .transaction, .functionHead, .keyGeneration, .publicKey,
    .encryption, .decryption, .hashing, .signing, .verification, .qubitDeclaration,
    .gateApplication, .measurement]

/-- From a state inside an element, the symbols of a rule can be read before
what may follow its phrase: the first one is a token or another of the heads,
and the others are read outside these states. -/
def opensInside (state : Nat) (phrase : Nonterminal) : List GrammarSymbol → Bool
  | [] => false
  | X :: rest => match target? state X with
    | none => false
    | some next =>
      (match X with
        | .t _ => true
        | .n head => statementHeads.contains head &&
            (opening (follow state phrase) rest).subset (follow state head)) &&
      readable (follow state phrase) next rest

/-- What opens inside an element does so with a first symbol that leads on, and
from there it can be read as anywhere else. -/
theorem opensInside_cons {state : Nat} {phrase : Nonterminal} {symbols : List GrammarSymbol}
    (h : opensInside state phrase symbols = true) :
    ∃ X rest next, symbols = X :: rest ∧ target? state X = some next ∧
      readable (follow state phrase) next rest = true ∧
      ∀ head, X = .n head → head ∈ statementHeads ∧
        (opening (follow state phrase) rest).subset (follow state head) = true := by
  cases symbols with
  | nil => cases h
  | cons X rest =>
      simp only [opensInside] at h
      split at h
      · cases h
      · rename_i next hNext
        rw [Bool.and_eq_true] at h
        refine ⟨X, rest, next, rfl, hNext, h.2, ?_⟩
        rintro head rfl
        have hHead := h.1
        rw [Bool.and_eq_true, List.contains_iff_mem] at hHead
        exact hHead

theorem mem_plainRules {rule : Rule} (h : rule.elementFree = true) :
    rule ∈ plainRules rule.production.phrase :=
  List.mem_filter.mpr ⟨rule.mem_ofPhrase, h⟩

/-- Every rule for a phrase that statements begin with can be read inside an
element. -/
theorem opensInside_of_head {state : Nat} (hState : state ∈ insideElement) {rule : Rule}
    (hRule : rule.elementFree = true) (hHead : rule.production.phrase ∈ statementHeads) :
    opensInside state rule.production.phrase rule.production.symbols = true := by
  have hTable : (insideElement.all fun state => statementHeads.all fun phrase =>
      (plainRules phrase).all fun rule => opensInside state phrase rule.production.symbols) =
        true := by
    decide +kernel
  have hPhrase := List.all_eq_true.mp (List.all_eq_true.mp hTable state hState) _ hHead
  exact List.all_eq_true.mp hPhrase rule (mem_plainRules hRule)

/-- The state behind a statement inside an element. -/
def statementEnd : Nat := 129

/-- Every statement can be read inside an element, a bare expression
excepted. -/
theorem opensInside_of_statement {state : Nat} (hState : state ∈ insideElement) {rule : Rule}
    (hRule : rule.elementFree = true) (hPhrase : rule.production.phrase = .statement)
    (hPlain : rule ≠ .statementExpression) :
    opensInside state .statement rule.production.symbols = true := by
  have hTable : (insideElement.all fun state => (plainRules .statement).all fun rule =>
      rule = .statementExpression || opensInside state .statement rule.production.symbols) =
        true := by
    decide +kernel
  have hMem : rule ∈ plainRules .statement := hPhrase ▸ mem_plainRules hRule
  have hEither := List.all_eq_true.mp (List.all_eq_true.mp hTable state hState) rule hMem
  simpa [hPlain] using hEither

/-- All states inside an element agree on where a statement leads and that a
terminator may follow it. -/
theorem statement_inside {state : Nat} (hState : state ∈ insideElement) :
    target? state (.n .statement) = some statementEnd ∧
      .terminator ∈ follow state .statement := by
  have hTable : (insideElement.all fun state => target? state (.n .statement) = some statementEnd &&
      (TerminalSet.ofList [.terminator]).subset (follow state .statement)) = true := by
    decide +kernel
  have hBoth := List.all_eq_true.mp hTable state hState
  rw [Bool.and_eq_true, decide_eq_true_eq] at hBoth
  exact ⟨hBoth.1, TerminalSet.mem_of_subset hBoth.2 ((TerminalSet.mem_ofList ..).mpr (.head _))⟩

namespace Growth

/-- A rule that opens inside an element is read there, if its first part is.
The first part may itself be a phrase that statements begin with; the other
parts are read as anywhere else. -/
theorem grows_of_opensInside {rule : Rule} {parts : List Derivation}
    (joins : parts.map symbol = rule.production.symbols) (hValid : ∀ e ∈ parts, e.Valid)
    (hRule : rule.elementFree = true) (hFree : ∀ e ∈ parts, e.ElementFree) {spine : Spine}
    {rest : List Token} {state : Nat}
    (hOpens : opensInside (topOf spine) rule.production.phrase rule.production.symbols = true)
    (hLeads : target? (topOf spine) (.n rule.production.phrase) = some state)
    (hFollow : headKind rest ∈ follow (topOf spine) rule.production.phrase)
    (hHeads : ∀ e ∈ parts, ∀ head ∈ statementHeads, e.symbol = .n head →
      ∀ next following, target? (topOf spine) (.n head) = some next →
      headKind following ∈ follow (topOf spine) head →
      Grows spine e next following) : Grows spine (.node rule parts) state rest := by
  obtain ⟨X, symbols, next, hSymbols, hNext, hReadable, hFirst⟩ := opensInside_cons hOpens
  rw [hSymbols] at joins
  obtain ⟨first, others, rfl, rfl, rfl⟩ := List.map_eq_cons_iff.mp joins
  have hValidOthers : ∀ e ∈ others, e.Valid := fun e he => hValid e (.tail _ he)
  have hOpening : headKind (tokensAll others ++ rest) ∈
      opening (follow (topOf spine) rule.production.phrase) (others.map symbol) :=
    headKind_mem_opening hValidOthers (fun e he t rest ht => (hValidOthers e he).head_mem_starts ht)
      fun _ => hFollow
  have hGrows : Grows spine first next (tokensAll others ++ rest) := by
    cases first with
    | leaf t => exact .leaf _ hNext
    | node headRule headParts =>
        obtain ⟨hListed, hSubset⟩ := hFirst _ rfl
        exact hHeads _ (.head _) _ hListed rfl next _ hNext
          (TerminalSet.mem_of_subset hSubset hOpening)
  have hReads : ∀ e ∈ others, Reads e := fun e he =>
    reads_of_elementFree (hValidOthers e he) (hFree e (.tail _ he))
  obtain ⟨last, hRow, hWalk⟩ :=
    growsAll_of_readable hReads hValidOthers hFollow ((next, first) :: spine) hReadable
  have hWhole : walk? (topOf spine) rule.production.symbols = some (topOf last) := by
    rw [hSymbols, walk?, hNext]
    exact hWalk
  have hSize : (first :: others).length = rule.size := by
    rw [Rule.size, hSymbols, List.length_cons, List.length_cons, List.length_map]
  exact .node (.cons hGrows hRow) hSize (decision_of_follow hRule hWhole hFollow) hLeads

/-- Inside an element, the head of a statement is read like anywhere else. -/
theorem grows_head {d : Derivation} (hValid : d.Valid) (hFree : d.ElementFree)
    {phrase : Nonterminal} (hSymbol : d.symbol = .n phrase) (hHead : phrase ∈ statementHeads)
    {spine : Spine} {rest : List Token} {state : Nat} (hInside : topOf spine ∈ insideElement)
    (hLeads : target? (topOf spine) (.n phrase) = some state)
    (hFollow : headKind rest ∈ follow (topOf spine) phrase) : Grows spine d state rest := by
  induction hValid generalizing phrase rest state with
  | leaf t => cases hSymbol
  | @node rule parts joins valid ih =>
      cases hSymbol
      cases hFree with
      | node hRule hParts =>
          refine grows_of_opensInside joins valid hRule hParts
            (opensInside_of_head hInside hRule hHead) hLeads
            hFollow fun e he head hListed hSymbol next following hNext hAfter => ?_
          exact ih e he (hParts e he) hSymbol hListed hNext hAfter

/-- Inside an element, every statement but a bare expression is read, up to its
terminator. -/
theorem grows_statement {rule : Rule} {parts : List Derivation} (hValid : (node rule parts).Valid)
    (hFree : (node rule parts).ElementFree) (hPhrase : rule.production.phrase = .statement)
    (hPlain : rule ≠ .statementExpression) {spine : Spine} {rest : List Token}
    (hInside : topOf spine ∈ insideElement) (hRest : headKind rest = .terminator) :
    Grows spine (.node rule parts) statementEnd rest := by
  cases hValid with
  | node joins valid =>
      cases hFree with
      | node hRule hParts =>
          obtain ⟨hLeads, hFollow⟩ := statement_inside hInside
          have hOpens := opensInside_of_statement hInside hRule hPhrase hPlain
          rw [← hPhrase] at hLeads hFollow hOpens
          refine grows_of_opensInside joins valid hRule hParts hOpens hLeads (hRest ▸ hFollow) ?_
          intro e he head hListed hSymbol next following hNext hAfter
          exact grows_head (valid e he) (hParts e he) hSymbol hListed hInside hNext hAfter

end Growth

end PageScript.Automaton
