import PageScript.Proofs.Parse.Provenance
import PageScript.Proofs.Parse.Termination

/-! How parses end. Main statement: every parse comes to an end after at most
so many steps as its input pays for, recoveries included, and then there is a
program, or nothing, or a fault of the script. -/
namespace PageScript

/-! ### Faults of single rules -/

/-- The result is not that phrases were joined which do not belong together. -/
def Placed {α : Type} (result : Except Fault α) : Prop :=
  result ≠ .error .misplacedPhrase

theorem placed_ok {α : Type} (a : α) : Placed (.ok a : Except Fault α) := by
  rintro ⟨⟩

theorem placed_error {α : Type} {fault : Fault} (h : fault ≠ .misplacedPhrase) :
    Placed (.error fault : Except Fault α) :=
  fun hSame => h (Except.error.inj hSame)

theorem Placed.bind {α β : Type} {result : Except Fault α} {next : α → Except Fault β}
    (h : Placed result) (hNext : ∀ a, Placed (next a)) : Placed (result >>= next) := by
  cases result with
  | ok a => exact hNext a
  | error fault => exact fun hSame => h (congrArg Except.error (Except.error.inj hSame))

namespace Node

/-- Writing a node out does not misplace phrases. -/
theorem placed_serialise (n : Node) : Placed n.serialise := by
  fun_induction serialise n with
  | case1 left operator right hLeft hRight =>
      exact hLeft.bind fun _ => hRight.bind fun _ => placed_ok _
  | case2 operator operand hOperand => exact hOperand.bind fun _ => placed_ok _
  | case3 value =>
      cases value.write with
      | ok text => exact placed_ok text
      | error cause => exact placed_error Fault.noConfusion
  | case4 value => exact placed_ok _
  | case5 name => exact placed_ok _
  | case6 n => exact placed_error Fault.noConfusion

/-- A search that goes on with another does not misplace phrases, if neither of
them does. -/
theorem placed_orElse {first second : Search} (hFirst : Placed first.found)
    (hSecond : Placed second.found) :
    Placed (first.orElse fun _ => second).found := by
  unfold Search.orElse
  split
  · exact hSecond
  · exact hFirst

mutual

/-- Searching a statement for a return statement does not misplace phrases. -/
theorem placed_searchReturn (n : Node) : Placed (searchReturn n).found := by
  cases n with
  | ifStatement condition thenBlock elseBlock =>
      rw [searchReturn]
      exact placed_orElse (placed_searchBranch thenBlock) (placed_searchBranch elseBlock)
  | whileStatement condition body =>
      rw [searchReturn]
      exact placed_searchBlock body
  | forStatement iterator iterable body =>
      rw [searchReturn]
      exact placed_searchBlock body
  | _ =>
      simp only [searchReturn]
      exact placed_ok _

theorem placed_searchBranch (n : Node) : Placed (searchBranch n).found := by
  cases n with
  | block statements | program statements =>
      rw [searchBranch]
      exact placed_searchReturns statements
  | missing =>
      rw [searchBranch]
      exact placed_ok _
  | _ =>
      simp only [searchBranch]
      exact placed_error Fault.noConfusion

theorem placed_searchBlock (n : Node) : Placed (searchBlock n).found := by
  cases n with
  | block statements | program statements =>
      rw [searchBlock]
      exact placed_searchReturns statements
  | _ =>
      simp only [searchBlock]
      exact placed_error Fault.noConfusion

theorem placed_searchReturns (statements : List Node) :
    Placed (searchReturns statements).found := by
  cases statements with
  | nil =>
      rw [searchReturns]
      exact placed_ok _
  | cons s rest =>
      rw [searchReturns]
      exact placed_orElse (placed_searchReturn s) (placed_searchReturns rest)

end

end Node

namespace Build

open GrammarSymbol

/-- A function that is refused is not refused for misplaced phrases. -/
theorem placed_functionOf (name : String) (parameters : List Parameter) (result : Option Ty)
    (async : Bool) (body : Node) (statements : List Node) :
    Placed (functionOf name parameters result async body statements).result := by
  have hSearch := Node.placed_searchReturns statements
  unfold functionOf
  dsimp only
  split
  · exact placed_error Fault.noConfusion
  · dsimp only
    cases hFound : (Node.searchReturns statements).found with
    | ok found =>
        cases found with
        | true => exact placed_ok _
        | false => exact placed_error Fault.noConfusion
    | error fault =>
        rw [hFound] at hSearch
        exact placed_error fun hSame => hSearch (congrArg Except.error hSame)

theorem placed_checkContent (content : List Node) : Placed (checkContent content) := by
  fun_induction checkContent content with
  | case1 => exact placed_ok _
  | case2 _ _ ih => exact ih
  | case3 _ _ value _ _ ih => exact (Node.placed_serialise value).bind fun _ => ih
  | case4 => exact placed_error Fault.noConfusion

/-- An element that is refused is not refused for misplaced phrases. -/
theorem placed_buildElement (policy : ElementPolicy) (tag : String) (attributes : Table String)
    (content : List Node) (closing : Option String) :
    Placed (buildElement policy tag attributes content closing) := by
  have hFinish : Placed (buildElement.finish policy tag attributes content) := by
    cases policy with
    | keep => exact placed_ok _
    | refuse => exact (placed_checkContent content).bind fun _ => placed_error Fault.noConfusion
  rw [buildElement.eq_def]
  split
  · split
    · exact hFinish
    · exact placed_error Fault.noConfusion
  · exact hFinish

/-- A rule that joins phrases of the kinds it expects fails for a reason that
lies in the script. -/
theorem placed_build (policy : ElementPolicy) {rule : Rule} {parts : List Phrase}
    (h : FitAll rule.production.symbols parts) : Placed (build policy rule parts).result := by
  cases hRule : rule.canRefuse with
  | false =>
      obtain ⟨p, hJoin, -⟩ := join_fits h hRule
      rw [build_of_join policy hRule hJoin]
      exact placed_ok p
  | true =>
      cases rule with
      | functionDeclaration =>
          casesm* FitAll _ _, Shape.Fits _ _
          exact placed_functionOf _ _ _ _ _ _
      | element =>
          casesm* FitAll _ _, Shape.Fits _ _
          all_goals
            simp only [build]
            exact placed_buildElement _ _ _ _ _
      | dynamicContent => exact placed_error Fault.noConfusion
      | _ => cases hRule

/-- The rules for programs make programs. -/
theorem exists_program_of_build {policy : ElementPolicy} {rule : Rule}
    (hRule : rule.production.phrase = .program) {parts : List Phrase} {p : Phrase}
    (h : (build policy rule parts).result = .ok p) :
    ∃ ns, p = .node (.program ns) := by
  cases rule with
  | programItems | programTerminated | programEmpty =>
      simp only [build, join] at h
      split at h
      · rename_i joined
        cases h
        obtain ⟨ns, -, rfl⟩ := Option.map_eq_some_iff.mp joined
        exact ⟨ns, rfl⟩
      · cases h
  | _ => cases hRule

end Build

namespace Parse

open Automaton PageScript.Derivation
open Lexer (Lexeme collect)

/-! ### What a parse ends with -/

/-- What is accepted is a program. -/
theorem Stems.exists_program {policy : ElementPolicy} {good : Token → Prop} {p : Phrase}
    (h : Stems policy good p) :
    ∃ ns, p = .node (.program ns) := by
  obtain ⟨d, -, hSymbol, hValue, -⟩ := h
  cases d with
  | leaf t => cases hSymbol
  | node rule parts =>
      obtain ⟨phrases, -, hBuild⟩ := value_node_inv hValue
      exact Build.exists_program_of_build (GrammarSymbol.n.inj hSymbol) hBuild

/-- A step that leads on, or that does not end the parse with misplaced
phrases. -/
def Step.Placed : Step → Prop
  | .next _ => True
  | .done parsed => parsed.outcome ≠ .failed .misplacedPhrase

section placing

variable {policy : ElementPolicy} {source : String} {c : Config}

/-- A rule finds the phrases it expects on the stack, and a state to go on to.
The stack holds the values of a linked spine, and of this the automaton says
so. -/
theorem GroundedStack.reduction (h : GroundedStack policy Token.Scanned c.stack) {kind : Terminal}
    {rule : Rule} (hReduce : decision (topState c.stack) kind = some (.reduce rule)) :
    GrammarSymbol.FitAll rule.production.symbols (c.parts rule) ∧
      ∃ state, goto? (topState (c.stack.drop rule.size)) rule.production.phrase = some state := by
  obtain ⟨spine, hFrames, hLinked, hTokens⟩ := h
  rw [topState_eq_of_holds hFrames] at hReduce
  obtain ⟨-, state, hLeads⟩ := hLinked.reduction hReduce
  have hNode := (hLinked.reduced hReduce hLeads).1.valid_of_mem (.head _)
  constructor
  · cases hNode with
    | node joins valid =>
        have hMem : ∀ t ∈ tokensAll (Spine.parts (spine.take rule.size)), t.Scanned := by
          intro t ht
          apply hTokens
          rw [← List.take_append_drop rule.size spine, Spine.tokens_append]
          exact List.mem_append_right _ ht
        have hFits := fitAll_of_values (fun d hd p hp =>
          (valid d hd).value_fits (fun t ht => hMem t (mem_tokensAll hd ht)) hp)
            (values_eq_of_holds hFrames rule)
        rwa [joins] at hFits
  · refine ⟨state, ?_⟩
    rw [goto?_eq_target?, topState_eq_of_holds (List.forall₂_drop rule.size hFrames)]
    exact hLeads

/-- A rule that the automaton applies finds the phrases that it joins: they are
the values of derivations of its symbols. -/
theorem Grounded.placed_reduce (h : Grounded policy Token.Scanned c) {kind : Terminal} {rule : Rule}
    (hReduce : decision (topState c.stack) kind = some (.reduce rule)) :
    (Parse.reduce policy c rule).Placed := by
  obtain ⟨hFits, state, hGoto⟩ := h.stack.reduction hReduce
  have hPlaced := Build.placed_build policy hFits
  unfold Parse.reduce
  dsimp only
  split
  · rw [hGoto]
    trivial
  · trivial
  · rename_i hBuild
    intro hSame
    cases hSame
    exact hPlaced hBuild

/-- Looking ahead fails at a number that cannot be read, and nowhere else. -/
theorem exists_numeral_of_look {parsed : Parsed} (h : c.look = .error parsed) :
    ∃ cause output, parsed = ⟨.failed (.numeral cause), output⟩ := by
  unfold Config.look at h
  split at h
  · cases h
  · cases h
  · obtain ⟨t, left, out, hNext, -⟩ | ⟨out, hNext, -⟩ | ⟨cause, left, out, hNext, -⟩ :=
      nextToken_cases c.input c.output
    all_goals
      simp only [hNext] at h
      cases h
    exact ⟨cause, out, rfl⟩

/-- A recovery does not end a parse with misplaced phrases. -/
theorem placed_recover (source : String) (c : Config) (la : Lookahead) :
    (recover source c la).Placed := by
  unfold recover
  split
  · cases la <;> rintro ⟨⟩
  · dsimp only
    split
    · rintro ⟨⟩
    all_goals trivial

/-- Whatever token is at hand, an action does not end a grounded parse with
misplaced phrases. The bottom state is not the one that accepts, so there is
something to accept. -/
theorem Grounded.placed_act (h : Grounded policy Token.Scanned c) (la : Lookahead)
    (hDefault : default? (topState c.stack) = none) : (Parse.act policy source c la).Placed := by
  unfold Parse.act
  split
  · trivial
  · rename_i rule hAction
    obtain ⟨kind, -, hAction⟩ := Option.bind_eq_some_iff.mp hAction
    rw [← decision_of_no_default hDefault] at hAction
    exact h.placed_reduce hAction
  · rename_i hAction
    obtain ⟨kind, -, hAction⟩ := Option.bind_eq_some_iff.mp hAction
    rw [← decision_of_no_default hDefault] at hAction
    split
    · rintro ⟨⟩
    · rename_i hStack
      obtain ⟨_, hEq, _⟩ | ⟨_, _, _, hEq, _⟩ | ⟨-, hTop, -⟩ := decision_cases hAction
      · cases hEq
      · cases hEq
      · rw [hStack] at hTop
        cases hTop
  · exact placed_recover source c la

/-- A step does not end a grounded parse with misplaced phrases. -/
theorem Grounded.placed_step (h : Grounded policy Token.Scanned c) (source : String) :
    (Parse.step policy source c).Placed := by
  cases hDefault : default? (topState c.stack) with
  | some rule =>
      rw [step_of_default hDefault]
      exact h.placed_reduce (decision_of_default hDefault .endOfInput)
  | none =>
      cases hLook : c.look with
      | ok seen =>
          obtain ⟨la, looked⟩ := seen
          rw [step_of_look_ok hDefault hLook]
          exact (h.look hLook).1.placed_act la (by rwa [look_stack hLook])
      | error parsed =>
          rw [step_of_look_error hDefault hLook]
          obtain ⟨cause, output, rfl⟩ := exists_numeral_of_look hLook
          rintro ⟨⟩

/-- A grounded parse stays grounded, however many steps it takes. -/
theorem Grounded.leads {good : Token → Prop} {steps : Nat} {last : Config}
    (h : Grounded policy good c) (hLeads : Leads policy source c steps last) :
    Grounded policy good last := by
  induction hLeads with
  | zero => exact h
  | succ _ next ih =>
      have hStep : (Parse.step policy source _).Sound policy good := ih.step
      rwa [next] at hStep

end placing

/-! ### Every parse -/

section ending

variable {policy : ElementPolicy} {source : String} {c : Config}

/-- Nothing is done behind the last step. -/
theorem Leads.le_of_done {steps n : Nat} {last other : Config} {parsed : Parsed}
    (hLast : Leads policy source c steps last) (hDone : step policy source last = .done parsed)
    (h : Leads policy source c n other) : n ≤ steps := by
  induction n generalizing c steps with
  | zero => exact Nat.zero_le _
  | succ n ih =>
      obtain ⟨hZero, -⟩ | ⟨fewer, middle, hFewer, hFirst, hOthers⟩ := h.eq_or_head
      · cases hZero
      cases hFewer
      obtain ⟨-, rfl⟩ | ⟨before, between, rfl, hStep, hRest⟩ := hLast.eq_or_head
      · rw [hDone] at hFirst
        cases hFirst
      · rw [hFirst] at hStep
        cases hStep
        exact Nat.succ_le_succ (ih hRest hOthers)

/-- Every parse has a last step, which gives its result. -/
theorem exists_last_step (policy : ElementPolicy) (source : String) (input : List Lexeme) :
    ∃ steps last parsed, steps ≤ fullBudget input ∧
      Leads policy source (Config.start input) steps last ∧
      step policy source last = .done parsed ∧ parsed.outcome ≠ .unfinished ∧
      parseLexemes policy source input = parsed := by
  have hStart : Phase policy input (fullBudget input) (Config.start input) :=
    phase_of_empty (List.suffix_refl input) _ _ (Nat.le_refl _)
  obtain ⟨steps, last, parsed, hSteps, hLeads, hDone, hFinished⟩ := hStart.finishes source
  have hAllowed : steps < stepBound input :=
    Nat.lt_of_le_of_lt hSteps (fullBudget_lt_stepBound input)
  exact ⟨steps, last, parsed, hSteps, hLeads, hDone, hFinished,
    run_of_leads hLeads hDone hAllowed⟩

end ending

/-- Every parse comes to an end, whatever the lexemes are and however often it
recovers: there is a last step, it is within the budget of the input, and no
run goes on behind it. The parse then has a program, or it has been given up,
or it has a fault; and that is what any larger allowance of steps gives. If the
tokens carry what the scanner gives them, the fault is not that of a rule that
has been misapplied. -/
theorem parseLexemes_ends (policy : ElementPolicy) (source : String) (input : List Lexeme) :
    ∃ (steps : Nat) (last : Config) (parsed : Parsed), steps ≤ fullBudget input ∧
      Leads policy source (Config.start input) steps last ∧
        step policy source last = .done parsed ∧
      (∀ n c, Leads policy source (Config.start input) n c → n ≤ steps) ∧
      (∀ allowed > steps, run policy source allowed (Config.start input) = parsed) ∧
      parseLexemes policy source input = parsed ∧
      ((∃ ns, parsed.outcome = .accepted (.node (.program ns))) ∨
        parsed.outcome = .abandoned ∨
        ∃ fault, parsed.outcome = .failed fault ∧
          ((∀ t ∈ (collect input).tokens, t.Scanned) → fault ≠ .misplacedPhrase)) := by
  obtain ⟨steps, last, parsed, hSteps, hLeads, hDone, hFinished, hParse⟩ :=
    exists_last_step policy source input
  have hRun : ∀ allowed > steps, run policy source allowed (Config.start input) = parsed :=
    fun _ hMore => run_of_leads hLeads hDone hMore
  refine ⟨steps, last, parsed, hSteps, hLeads, hDone, fun n c h => hLeads.le_of_done hDone h,
    hRun, hParse, ?_⟩
  cases hOutcome : parsed.outcome with
  | accepted p =>
      have hAccepted : (parseLexemes policy source input).outcome = .accepted p := by
        rw [hParse, hOutcome]
      obtain ⟨ns, rfl⟩ := (stems_of_accepted hAccepted).exists_program
      exact .inl ⟨ns, rfl⟩
  | abandoned => exact .inr (.inl rfl)
  | failed fault =>
      refine .inr (.inr ⟨fault, rfl, fun hTokens hMisplaced => ?_⟩)
      have hLast : Grounded policy Token.Scanned last := (grounded_start hTokens).leads hLeads
      have hPlaced := hLast.placed_step source
      rw [hDone] at hPlaced
      exact hPlaced (by rw [hOutcome, hMisplaced])
  | unfinished => exact absurd hOutcome hFinished

end Parse

end PageScript
