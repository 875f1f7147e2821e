import PageScript.Proofs.Parse.Refusal
import PageScript.Proofs.Parse.Termination

/-! What becomes of a parse in which a rule refuses. Main statement: it ends
like one that begins anew behind the token that was looked at. Nothing stays of
what was read before but what was printed. -/
namespace PageScript.Parse

open Automaton PageScript.Derivation
open Lexer (Lexeme)

/-! ### What was printed before -/

/-- The same end, with this printed in front. -/
def Parsed.after (printed : String) (parsed : Parsed) : Parsed :=
  { parsed with output := printed ++ parsed.output }

def Config.after (printed : String) (c : Config) : Config :=
  { c with output := printed ++ c.output }

def Step.after (printed : String) : Step → Step
  | .next c => .next (c.after printed)
  | .done parsed => .done (parsed.after printed)

section printing

variable {policy : ElementPolicy} {source : String} (printed : String)

/-- What has been printed before does not matter for which token is read. -/
theorem nextToken_after (input : List Lexeme) (output : String) :
    nextToken input (printed ++ output) =
      ((nextToken input output).1, (nextToken input output).2.1,
        printed ++ (nextToken input output).2.2) := by
  induction input generalizing output with
  | nil => rfl
  | cons first rest ih =>
      cases first with
      | token t => rfl
      | stray c line place =>
          rw [nextToken, nextToken, String.append_assoc]
          exact ih _
      | overlong digits => rfl

/-- What has been printed before does not matter for how a rule is applied. -/
theorem reduce_after (c : Config) (rule : Rule) :
    reduce policy (c.after printed) rule = (reduce policy c rule).after printed := by
  unfold reduce
  simp only [Config.after, String.append_assoc]
  split
  · split <;> rfl
  · rfl
  · rfl

theorem recover_after (c : Config) (la : Lookahead) :
    recover source (c.after printed) la = (recover source c la).after printed := by
  obtain ⟨stack, lookahead, pushedBack, quiet, input, output⟩ := c
  cases quiet with
  | zero => rfl
  | succ quiet => cases stack <;> cases la <;> rfl

/-- What has been printed before does not matter for what is done with a
token. -/
theorem act_after (c : Config) (la : Lookahead) :
    act policy source (c.after printed) la = (act policy source c la).after printed := by
  unfold act
  simp only [reduce_after, recover_after]
  simp only [Config.after]
  split
  · rfl
  · rfl
  · split <;> rfl
  · rfl

/-- A step does not depend on what was printed before. The cases are the ways
in which a step comes to its token. -/
theorem step_after (c : Config) :
    step policy source (c.after printed) = (step policy source c).after printed := by
  obtain ⟨stack, lookahead, pushedBack, quiet, input, output⟩ := c
  cases hDefault : default? (topState stack) with
  | some rule =>
      simp only [step, Config.after, hDefault]
      exact reduce_after printed ⟨stack, lookahead, pushedBack, quiet, input, output⟩ rule
  | none =>
      cases lookahead with
      | some la =>
          simp only [step, Config.after, hDefault]
          exact act_after printed ⟨stack, some la, pushedBack, quiet, input, output⟩ la
      | none =>
          cases pushedBack with
          | cons la rest =>
              simp only [step, Config.after, hDefault]
              exact act_after printed ⟨stack, some (la.getD .finish), rest, quiet,
                input, output⟩ _
          | nil =>
              simp only [step, Config.after, hDefault, nextToken_after]
              obtain ⟨result, left, out⟩ := nextToken input output
              cases result with
              | ok la => exact act_after printed ⟨stack, some la, [], quiet, left, out⟩ la
              | error fault => rfl

/-- What has been printed before a run stands before what the run prints, and
changes nothing else. The induction is on the steps. -/
theorem run_after (steps : Nat) (c : Config) :
    run policy source steps (c.after printed) = (run policy source steps c).after printed := by
  induction steps generalizing c with
  | zero => rfl
  | succ steps ih =>
      rw [run, run, step_after]
      cases step policy source c with
      | next next => exact ih next
      | done parsed => rfl

end printing

/-! ### Behind a refusal -/

section refusals

variable {policy : ElementPolicy} {source : String} {input : List Lexeme} {budget : Nat}
    {c : Config} {spine : Spine}

/-- All states are taken back, and the parse begins anew. -/
theorem leads_anew {stack : List Frame} (hPlain : ∀ frame ∈ stack, default? frame.state = none)
    (pushedBack : List (Option Lookahead)) (rest : List Lexeme) (output : String) :
    Leads policy source ⟨stack, some .refused, pushedBack, quietPeriod, rest, output⟩
      (stack.length + 1) (.anew rest output) := by
  induction stack with
  | nil => exact .head (step_of_refused rfl rfl default?_zero) .zero
  | cons top lower ih =>
      exact .head (step_of_refused rfl rfl (hPlain top (.head _)))
        (ih fun frame hFrame => hPlain frame (.tail _ hFrame))

/-- Where a rule refuses, a token is at hand or the end of the input. The two
rules that can refuse are not applied unseen without a token at hand. -/
theorem Regular.look_of_refused (h : Regular policy input budget c spine) (source : String)
    {rule : Rule} {cause : SyntaxFault}
    (hRefused : c.failure? policy = some (rule, .syntactic cause)) :
    ∃ la looked, c.look = .ok (la, looked) ∧ looked.lookahead = some la ∧
      Regular policy input budget looked spine ∧
        Parse.step policy source c = Parse.reduce policy looked rule := by
  obtain ⟨hRule, hBuild⟩ := failure?_eq_some_iff.mp hRefused
  cases hDefault : default? (topState c.stack) with
  | some other =>
      rw [rule?_of_default hDefault, Option.some.injEq] at hRule
      subst other
      cases hAhead : c.lookahead with
      | some la =>
          exact ⟨la, c, by simp only [Config.look, hAhead], hAhead, h, step_of_default hDefault⟩
      | none =>
          have hAwaits := h.awaits_of_default hDefault hAhead
          rcases Build.eq_of_syntactic hBuild with rfl | rfl <;> cases hAwaits
  | none =>
      obtain ⟨la, looked, hLook, hAhead, hLooked⟩ | ⟨fault, out, hLook⟩ := h.look
      · have hAction := (rule?_eq_some_iff_of_look hDefault hLook).mp hRule
        refine ⟨la, looked, hLook, hAhead, hLooked, ?_⟩
        rw [step_of_look_ok hDefault hLook, Parse.act, look_stack hLook, hAction]
      · rw [rule?_of_look_error hDefault hLook] at hRule
        cases hRule

/-- From where a rule refuses, the parse begins anew behind what was looked
at. -/
theorem Regular.leads_anew (h : Regular policy input budget c spine) (source : String) {rule : Rule}
    {cause : SyntaxFault} (hRefused : c.failure? policy = some (rule, .syntactic cause)) :
    ∃ la looked steps, c.look = .ok (la, looked) ∧ Taken input (some la) looked.input ∧
      Leads policy source c steps (.anew looked.input
        (looked.output ++ (Build.build policy rule (c.parts rule)).output)) := by
  obtain ⟨la, looked, hLook, hAhead, hLooked, hStep⟩ := h.look_of_refused source hRefused
  obtain ⟨-, hBuild⟩ := failure?_eq_some_iff.mp hRefused
  have hParts : (looked.stack.take rule.size).reverse.map Frame.phrase = c.parts rule := by
    rw [look_stack hLook, Config.parts]
  refine ⟨la, looked, _, hLook, hAhead ▸ hLooked.taken, .head ?_
    (Parse.leads_anew (default?_of_mem_drop hLooked.frames hLooked.linked)
      [looked.lookahead] _ _)⟩
  rw [hStep, Parse.reduce]
  simp only [hParts, hBuild, hLooked.pushedBack_eq]

/-- While states are taken back, no rule is applied. -/
theorem Unwinding.failure?_eq (h : Unwinding input budget c) : c.failure? policy = none := by
  have hLook : c.look = .ok (.refused, c) := by simp only [Config.look, h.lookahead_eq]
  have hRule : c.rule? = none := by
    rw [Option.eq_none_iff_forall_not_mem]
    intro rule hRule
    have hAction := (rule?_eq_some_iff_of_look h.default?_eq hLook).mp hRule
    cases hAction
  simp only [Config.failure?, hRule]

end refusals

/-- The parse of these lexemes by an automaton that has just recovered. -/
def parseAnew (policy : ElementPolicy) (source : String) (input : List Lexeme) : Parsed :=
  run policy source (stepBound input) (.anew input "")

/-- A parse that begins anew comes to an end, whatever was printed before. -/
theorem run_anew (policy : ElementPolicy) (source : String) (input : List Lexeme)
    (printed : String) :
    ∃ steps last, Leads policy source (.anew input printed) steps last ∧
      step policy source last = .done ((parseAnew policy source input).after printed) ∧
      (parseAnew policy source input).outcome ≠ .unfinished := by
  have hPhase : Phase policy input (fullBudget input) (.anew input printed) :=
    phase_of_empty (List.suffix_refl input) _ _ (Nat.le_refl _)
  obtain ⟨steps, last, parsed, hSteps, hLeads, hDone, hFinished⟩ := hPhase.finishes source
  have hRun := run_of_leads hLeads hDone (Nat.lt_of_le_of_lt hSteps (fullBudget_lt_stepBound input))
  have hAfter : Config.anew input printed = (Config.anew input "").after printed := by
    simp [Config.anew, Config.after]
  rw [hAfter, run_after] at hRun
  subst hRun
  exact ⟨steps, last, hLeads, hDone, hFinished⟩

/-- After a rule has refused for a syntactic reason, a parse ends as one does
that begins anew behind what was looked at: behind a token of the input, or
with nothing left to read. Of what was done before only the printed text
stays. -/
theorem parseLexemes_of_refusal (policy : ElementPolicy) (source : String) (input : List Lexeme)
    {steps : Nat} {c : Config} {rule : Rule} {cause : SyntaxFault}
    (hLeads : Leads policy source (Config.start input) steps c)
    (hRefused : c.failure? policy = some (rule, .syntactic cause)) :
    ∃ la looked, c.look = .ok (la, looked) ∧
      ((∃ before t, la = .token t ∧ input = before ++ .token t :: looked.input) ∨
        (la = .finish ∧ looked.input = [])) ∧
      parseLexemes policy source input = (parseAnew policy source looked.input).after
        (looked.output ++ (Build.build policy rule (c.parts rule)).output) ∧
      (parseAnew policy source looked.input).outcome ≠ .unfinished := by
  have hStart : Phase policy input (fullBudget input) (Config.start input) :=
    phase_of_empty (List.suffix_refl input) _ _ (Nat.le_refl _)
  obtain ⟨left, -, hPhase⟩ := hStart.leads hLeads
  cases hPhase with
  | takingBack unwinding =>
      rw [unwinding.failure?_eq] at hRefused
      cases hRefused
  | reading spine regular =>
      obtain ⟨la, looked, more, hLook, hTaken, hAnew⟩ := regular.leads_anew source hRefused
      obtain ⟨others, last, hOthers, hDone, hFinished⟩ := run_anew policy source looked.input
        (looked.output ++ (Build.build policy rule (c.parts rule)).output)
      have hAll := (hLeads.trans hAnew).trans hOthers
      obtain ⟨spare, hSpare, -⟩ := hStart.leads hAll
      have hBound := fullBudget_lt_stepBound input
      refine ⟨la, looked, hLook, ?_, parseLexemes_of_leads hAll (by omega) hDone, hFinished⟩
      generalize looked.input = rest at hTaken
      cases hTaken with
      | token split => exact .inl ⟨_, _, rfl, split⟩
      | finish => exact .inr ⟨rfl, rfl⟩

/-- A function that does not return, between statements. -/
def interruptedScript : String :=
  "show 1\\\\ function silent():int \\\\ show 2\\\\ \\\\ show 3\\\\ show 4\\\\"

/-- The statement before the function is lost with it, and those behind it are
read. -/
theorem parseLexemes_of_refusal_interruptedScript :
    ∃ (ns : List Node) (c looked : Config) (rule : Rule) (cause : SyntaxFault) (la : Lookahead),
      (parse .refuse interruptedScript).tree = .ok (.program ns) ∧ ns.length = 2 ∧
      c.failure? .refuse = some (rule, .syntactic cause) ∧ c.look = .ok (la, looked) ∧
      (parse .refuse interruptedScript).outcome =
        (parseAnew .refuse interruptedScript looked.input).outcome := by
  have hTwo : (returned? (parse .refuse interruptedScript).tree).any (fun ns => ns.length == 2) =
      true := by
    decide +kernel
  have hOne : (failuresOf .refuse interruptedScript (Lexer.lexemes interruptedScript)).length =
      1 := by
    decide +kernel
  obtain ⟨ns, hReturned, hLength⟩ := (Option.any_eq_true _ _).mp hTwo
  have hTree := eq_of_returned? hReturned
  obtain ⟨⟨rule, fault⟩, hFailures⟩ := List.length_eq_one_iff.mp hOne
  have hMem : (rule, fault) ∈ failuresOf .refuse interruptedScript
      (Lexer.lexemes interruptedScript) := by
    rw [hFailures]
    exact .head _
  obtain ⟨cause, hCause⟩ := syntactic_of_returns hTree hMem
  obtain rfl : fault = .syntactic cause := hCause
  obtain ⟨steps, c, -, hLeads, hRefused⟩ := mem_failures_iff.mp hMem
  obtain ⟨la, looked, hLook, -, hParse, -⟩ :=
    parseLexemes_of_refusal .refuse interruptedScript _ hLeads hRefused
  refine ⟨ns, c, looked, rule, cause, la, hTree, beq_iff_eq.mp hLength, hRefused, hLook, ?_⟩
  rw [parse, hParse]
  rfl

end PageScript.Parse
