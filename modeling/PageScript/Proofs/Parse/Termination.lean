import PageScript.Proofs.Parse.Mirror

/-! Every parse ends. A parse reads on, or it takes back its states one by one,
and then none of them does anything of its own. Each step is paid for by the
tokens: what has been read pays for taking it back, too. Main statement: a
parse ends within the budget that its input gives it. -/
namespace PageScript

namespace Automaton

/-- The symbols that are complete only with a token at hand: the phrases that a
rule can refuse, and those that make up a function without looking at the next
token. -/
def awaitsToken : GrammarSymbol → Bool
  | .n .statements | .n .functionBody | .n .functionDeclaration | .n .element => true
  | _ => false

/-- The rule of a row that can only reduce by one rule before one token. -/
def Row.default? (row : Row) : Option Rule :=
  match row.shifts, row.reductions with
  | [], [(rule, [_])] => some rule
  | _, _ => none

theorem default?_eq_bind (state : Nat) : default? state = (row? state).bind Row.default? := by
  rw [default?, rows_getElem?]
  rfl

theorem default?_zero : default? 0 = none := by
  decide +kernel

/-- A state that can be left does not reduce by default. -/
theorem default?_eq_none_of_target? {state target : Nat} {X : GrammarSymbol}
    (h : target? state X = some target) : default? state = none := by
  have hTable : blocks.all (·.all fun row => row.default?.isNone || row.shifts.isEmpty &&
      row.gotos.isEmpty) = true := by
    decide +kernel
  obtain ⟨row, hRow, hTarget⟩ := target?_eq_some_iff.mp h
  rw [default?_eq_bind, hRow, Option.bind_some]
  have hState := row_of_all hTable hRow
  rw [Bool.or_eq_true, Bool.and_eq_true, List.isEmpty_iff, List.isEmpty_iff] at hState
  rcases hState with hNone | ⟨hShifts, hGotos⟩
  · exact Option.isNone_iff_eq_none.mp hNone
  · cases X with
    | t kind =>
        rw [Row.target?, hShifts] at hTarget
        cases hTarget
    | n phrase =>
        rw [Row.target?, hGotos] at hTarget
        cases hTarget

/-- A phrase that awaits a token is made by default only where the symbol
before it awaits one. -/
theorem awaitsToken_of_default? {source state : Nat} {X : GrammarSymbol}
    (hEdge : target? source X = some state) {rule : Rule} (hDefault : default? state = some rule)
    (hAwaits : awaitsToken (.n rule.production.phrase) = true) :
    awaitsToken X = true := by
  have hTable : (List.range stateCount).all
      (fun state => ((row? state).bind Row.default?).all fun rule =>
      !awaitsToken (.n rule.production.phrase) || (waysInto state).all fun e =>
        awaitsToken e.symbol) = true := by
    decide +kernel
  rw [default?_eq_bind] at hDefault
  obtain ⟨row, hRow, -⟩ := Option.bind_eq_some_iff.mp hDefault
  have hState := List.all_eq_true.mp hTable state (List.mem_range.mpr (lt_stateCount hRow))
  rw [hDefault, Option.all_some, hAwaits, Bool.not_true, Bool.false_or] at hState
  exact List.all_eq_true.mp hState _ (mem_waysInto hEdge (lt_stateCount hRow))

theorem Linked.size_le {spine : Spine} (h : Linked spine) :
    Spine.size spine ≤ GrammarSymbol.tokenPay * (Spine.tokens spine).length + 2 := by
  have hPaid := h.size_add_surplus_le
  have hDebt := h.neg_two_le_surplus
  rw [GrammarSymbol.tokenPay] at hPaid ⊢
  omega

/-- A reduction finds enough states to take back. -/
theorem Linked.size_le_length {spine : Spine} (h : Linked spine) {kind : Terminal} {rule : Rule}
    (hReduce : decision (topOf spine) kind = some (.reduce rule)) : rule.size ≤ spine.length := by
  have hLength := congrArg List.length (h.reduction hReduce).1
  rw [List.length_map, Spine.parts, List.length_map, List.length_reverse,
    List.length_take] at hLength
  rw [Rule.size]
  omega

/-- Each derivation on a spine has some size. -/
theorem Spine.length_le_size (spine : Spine) : spine.length ≤ Spine.size spine := by
  induction spine with
  | nil => exact Nat.le_refl 0
  | cons frame below ih =>
      obtain ⟨state, d⟩ := frame
      have hTop : 1 ≤ d.size := by
        cases d with
        | leaf t => exact Nat.le_refl 1
        | node rule parts => exact Nat.succ_le_succ (Nat.zero_le _)
      rw [List.length_cons, Spine.size]
      omega

end Automaton

/-- Only a function and an element are refused for a syntactic reason. -/
theorem Build.eq_of_syntactic {policy : ElementPolicy} {rule : Rule} {parts : List Phrase}
    {cause : SyntaxFault} (h : (Build.build policy rule parts).result = .error (.syntactic cause)) :
    rule = .functionDeclaration ∨ rule = .element := by
  unfold Build.build at h
  split at h
  · exact .inl rfl
  · exact .inr rfl
  · cases h
  · cases hJoin : Build.join rule parts with
    | none =>
        simp only [hJoin] at h
        cases h
    | some p =>
        simp only [hJoin] at h
        cases h

namespace Parse

open Automaton PageScript.Derivation
open Lexer (Lexeme)

/-! ### The phases of a parse -/

/-- What has been taken from the input: the token at hand stands right before
the lexemes that are left. -/
inductive Taken (input : List Lexeme) : Option Lookahead → List Lexeme → Prop where
  | unread {rest : List Lexeme} (suffix : rest <:+ input) : Taken input none rest
  | token {before rest : List Lexeme} {t : Token} (split : input = before ++ .token t :: rest) :
      Taken input (some (.token t)) rest
  | finish : Taken input (some .finish) []

theorem Taken.suffix {input rest : List Lexeme} {lookahead : Option Lookahead}
    (h : Taken input lookahead rest) :
    rest <:+ input := by
  cases h with
  | unread suffix => exact suffix
  | @token before _ t split =>
      exact ⟨before ++ [.token t], by rw [split, List.append_assoc]; rfl⟩
  | finish => exact List.nil_suffix

/-- How many lexemes are at hand or left. -/
def pending : Option Lookahead → List Lexeme → Nat
  | some (.token _), input => input.length + 1
  | _, input => input.length

theorem length_le_pending (lookahead : Option Lookahead) (input : List Lexeme) :
    input.length ≤ pending lookahead input := by
  unfold pending
  split <;> omega

/-- Reading on from a part of the input. -/
theorem nextToken_taken {input rest : List Lexeme} (hSuffix : rest <:+ input) (output : String) :
    (∃ la left out, nextToken rest output = (.ok la, left, out) ∧ Taken input (some la) left ∧
      pending (some la) left ≤ rest.length) ∨
    ∃ fault left out, nextToken rest output = (.error fault, left, out) := by
  induction rest generalizing output with
  | nil => exact .inl ⟨.finish, [], output, rfl, .finish, Nat.le_refl 0⟩
  | cons first rest ih =>
      obtain ⟨before, hBefore⟩ := hSuffix
      cases first with
      | token t => exact .inl ⟨.token t, rest, output, rfl, .token hBefore.symm, Nat.le_refl _⟩
      | stray c line place =>
          have hRest : rest <:+ input :=
            ⟨before ++ [.stray c line place], by rw [← hBefore, List.append_assoc]; rfl⟩
          obtain ⟨la, left, out, hNext, hTaken, hLess⟩ | hError :=
            ih hRest (output ++ Lexer.strayNotice c line place)
          · exact .inl ⟨la, left, out, hNext, hTaken, Nat.le_succ_of_le hLess⟩
          · exact .inr hError
      | overlong digits => exact .inr ⟨_, rest, output, rfl⟩

/-- The parse reads on. The stack holds the values of linked derivations,
nothing has been pushed back, and a phrase that awaits a token is not on top
without one. Each lexeme pays for three times the steps that the derivations
over it can take: to make them, to take them back, and to pay for a token that
is lost at the end of the input. -/
structure Regular (policy : ElementPolicy) (input : List Lexeme) (budget : Nat) (c : Config)
    (spine : Spine) : Prop where
  frames : List.Forall₂ (Holds policy) c.stack spine
  linked : Linked spine
  taken : Taken input c.lookahead c.input
  pushedBack_eq : c.pushedBack = []
  seen : c.lookahead = none → ∀ frame ∈ spine.head?, awaitsToken frame.2.symbol = false
  paid : 3 * GrammarSymbol.tokenPay *
      ((Spine.tokens spine).length + pending c.lookahead c.input) + 10 ≤
    budget + Spine.size spine

/-- The parse takes back its states, none of which acts by itself. -/
structure Unwinding (input : List Lexeme) (budget : Nat) (c : Config) : Prop where
  lookahead_eq : c.lookahead = some .refused
  quiet_eq : c.quiet = quietPeriod
  plain : ∀ frame ∈ c.stack, default? frame.state = none
  suffix : c.input <:+ input
  paid : c.stack.length + 3 * GrammarSymbol.tokenPay * c.input.length + 11 ≤ budget

/-- A parse reads on or takes back; it has at most so many steps to go. -/
inductive Phase (policy : ElementPolicy) (input : List Lexeme) (budget : Nat) (c : Config) :
    Prop where
  | reading (spine : Spine) (regular : Regular policy input budget c spine)
  | takingBack (unwinding : Unwinding input budget c)

/-- A step after which there are fewer steps to go, or which ends the parse. -/
def Step.Continues (policy : ElementPolicy) (input : List Lexeme) (budget : Nat) : Step → Prop
  | .next c => ∃ fewer < budget, Phase policy input fewer c
  | .done parsed => parsed.outcome ≠ .unfinished

/-- A parse that begins anew, with nothing on its stack and unfitting tokens
not reported yet. -/
def Config.anew (input : List Lexeme) (output : String) : Config :=
  ⟨[], none, [], quietPeriod, input, output⟩

section phases

variable {policy : ElementPolicy} {source : String} {input : List Lexeme} {budget : Nat}
    {c : Config} {spine : Spine}

/-- The steps that all these lexemes pay for. -/
def fullBudget (input : List Lexeme) : Nat :=
  3 * GrammarSymbol.tokenPay * input.length + 10

theorem fullBudget_lt_stepBound (input : List Lexeme) : fullBudget input < stepBound input := by
  rw [fullBudget, stepBound, GrammarSymbol.tokenPay]
  omega

/-- With an empty stack a parse reads on, whatever happened before, with the
budget of what is left. -/
theorem phase_of_empty {rest : List Lexeme} (hSuffix : rest <:+ input) (quiet : Nat)
    (output : String) (hPaid : fullBudget rest ≤ budget) :
    Phase policy input budget ⟨[], none, [], quiet, rest, output⟩ := by
  refine .reading [] ⟨.nil, .nil, .unread hSuffix, rfl, by rintro _ _ ⟨⟩, ?_⟩
  simpa [fullBudget, Spine.tokens, Spine.size, pending] using hPaid

/-- Below the top of a stack, no state acts by itself. -/
theorem default?_of_mem_drop {stack : List Frame}
    (hFrames : List.Forall₂ (Holds policy) stack spine) (hLinked : Linked spine) :
    ∀ frame ∈ stack.drop 1, default? frame.state = none := by
  induction hFrames with
  | nil => exact List.forall_mem_nil _
  | @cons top entry stack spine first others ih =>
      cases hLinked with
      | cons edge valid linked =>
          cases others with
          | nil => exact List.forall_mem_nil _
          | cons second lower =>
              rw [List.drop_one, List.tail_cons, List.forall_mem_cons]
              refine ⟨?_, ih linked⟩
              rw [second.1]
              exact default?_eq_none_of_target? edge

theorem Regular.budget_pos (h : Regular policy input budget c spine) : 0 < budget := by
  have hPaid := h.paid
  have hSize := h.linked.size_le
  rw [GrammarSymbol.tokenPay] at hPaid hSize
  omega

theorem Regular.topState_eq (h : Regular policy input budget c spine) :
    topState c.stack = topOf spine :=
  topState_eq_of_holds h.frames

/-- The stack of a parse that reads on is no longer than the derivations on it
are large. -/
theorem Regular.length_le (h : Regular policy input budget c spine) :
    c.stack.length ≤ Spine.size spine :=
  h.frames.length_eq ▸ Spine.length_le_size spine

/-- Looking at the next token costs nothing. -/
theorem Regular.look (h : Regular policy input budget c spine) :
    (∃ la looked, c.look = .ok (la, looked) ∧ looked.lookahead = some la ∧
      Regular policy input budget looked spine) ∨
    ∃ fault out, c.look = .error ⟨.failed fault, out⟩ := by
  obtain ⟨stack, lookahead, pushedBack, quiet, rest, output⟩ := c
  obtain ⟨frames, linked, taken, rfl, seen, paid⟩ := h
  cases lookahead with
  | some la => exact .inl ⟨la, _, rfl, rfl, frames, linked, taken, rfl, seen, paid⟩
  | none =>
      obtain ⟨la, left, out, hNext, hTaken, hLess⟩ | ⟨fault, left, out, hNext⟩ :=
        nextToken_taken taken.suffix output
      · refine .inl ⟨la, ⟨stack, some la, [], quiet, left, out⟩, ?_, rfl, frames, linked,
          hTaken, rfl, ?_, ?_⟩
        · simp only [Config.look, hNext]
        · rintro ⟨⟩
        · have hMonotone : 3 * GrammarSymbol.tokenPay *
              ((Spine.tokens spine).length + pending (some la) left) ≤
              3 * GrammarSymbol.tokenPay * ((Spine.tokens spine).length + rest.length) :=
            Nat.mul_le_mul_left _ (Nat.add_le_add_left hLess _)
          exact Nat.le_trans (Nat.add_le_add_right hMonotone 10) paid
      · exact .inr ⟨fault, out, by simp only [Config.look, hNext]⟩

/-- A token at hand is shifted. -/
theorem Regular.shift (h : Regular policy input budget c spine) {t : Token}
    (hAhead : c.lookahead = some (.token t)) {state : Nat}
    (hShift : decision (topState c.stack) t.kind = some (.shift state)) :
    Regular policy input (budget - 1)
      { c with
        stack := ⟨state, .leaf t.value⟩ :: c.stack, lookahead := none, quiet := c.quiet - 1 }
      ((state, .leaf t) :: spine) := by
  rw [h.topState_eq] at hShift
  have hStep : Growth.Step ⟨spine, [t]⟩ ⟨(state, .leaf t) :: spine, []⟩ := .shift hShift
  refine ⟨.cons ⟨rfl, rfl⟩ h.frames, (hStep.sound h.linked).1, .unread h.taken.suffix,
    h.pushedBack_eq, ?_, ?_⟩
  · intro _ frame hFrame
    cases hFrame
    rfl
  · have hPaid := h.paid
    have hPos := h.budget_pos
    rw [hAhead] at hPaid
    simp only [GrammarSymbol.tokenPay, pending, Spine.tokens, Spine.size, Derivation.tokens,
      Derivation.size, List.length_append, List.length_singleton] at hPaid ⊢
    omega

/-- A rule that builds leaves the parse reading on, with one step less to go.
The new derivation is one larger than its parts, and its tokens have paid for
that. -/
theorem Regular.built (h : Regular policy input budget c spine) {kind : Terminal} {rule : Rule}
    (hReduce : decision (topOf spine) kind = some (.reduce rule))
    (hSeen : c.lookahead = none → awaitsToken (.n rule.production.phrase) = false) {p : Phrase}
    (hBuild : (Build.build policy rule (c.parts rule)).result = .ok p) (output : String) :
    ∃ state, goto? (topState (c.stack.drop rule.size)) rule.production.phrase = some state ∧
      Phase policy input (budget - 1)
        { c with stack := ⟨state, p⟩ :: c.stack.drop rule.size, output := output } := by
  obtain ⟨-, state, hLeads⟩ := h.linked.reduction hReduce
  have hDropped := List.forall₂_drop rule.size h.frames
  have hValue := (value_node_ok (values_eq_of_holds h.frames rule)).trans hBuild
  obtain ⟨hNext, hSame, hSize⟩ := h.linked.reduced hReduce hLeads
  refine ⟨state, ?_, .reading _
    ⟨.cons ⟨rfl, hValue⟩ hDropped, hNext, h.taken, h.pushedBack_eq, ?_, ?_⟩⟩
  · rw [goto?_eq_target?, topState_eq_of_holds hDropped]
    exact hLeads
  · intro hNone frame hFrame
    cases hFrame
    exact hSeen hNone
  · have hPaid := h.paid
    have hPos := h.budget_pos
    have hRegroup : budget - 1 + (Spine.size spine + 1) = budget + Spine.size spine := by omega
    rw [hSame, hSize]
    exact hRegroup ▸ hPaid

/-- A rule that refuses. It joins phrases with tokens in them, and these pay
for the unwinding. -/
theorem Regular.refused (h : Regular policy input budget c spine) {kind : Terminal} {rule : Rule}
    (hReduce : decision (topOf spine) kind = some (.reduce rule)) {cause : SyntaxFault}
    (hBuild : (Build.build policy rule (c.parts rule)).result = .error (.syntactic cause))
    (pushedBack : List (Option Lookahead)) (output : String) :
    Unwinding input (budget - 1) ⟨c.stack.drop 1, some .refused, pushedBack, quietPeriod, c.input,
      output⟩ := by
  refine ⟨rfl, rfl, default?_of_mem_drop h.frames h.linked, h.taken.suffix, ?_⟩
  have hLong : 3 ≤ Spine.size spine := by
    have hRule : 3 ≤ rule.size := by
      rcases Build.eq_of_syntactic hBuild with rfl | rfl <;> decide
    exact Nat.le_trans (Nat.le_trans hRule (h.linked.size_le_length hReduce))
      (Spine.length_le_size spine)
  have hPaid := h.paid
  have hSize := h.linked.size_le
  have hLeft := length_le_pending c.lookahead c.input
  have hStack := h.length_le
  rw [GrammarSymbol.tokenPay] at hPaid hSize ⊢
  rw [List.length_drop]
  dsimp only
  omega

/-- A rule that builds, or refuses, or ends the parse. -/
theorem Regular.reduce (h : Regular policy input budget c spine) {kind : Terminal} {rule : Rule}
    (hReduce : decision (topState c.stack) kind = some (.reduce rule))
    (hSeen : c.lookahead = none → awaitsToken (.n rule.production.phrase) = false) :
    (reduce policy c rule).Continues policy input budget := by
  rw [h.topState_eq] at hReduce
  have hFewer : budget - 1 < budget := Nat.sub_one_lt_of_lt h.budget_pos
  unfold Parse.reduce
  dsimp only
  split
  · rename_i p hBuild
    obtain ⟨state, hGoto, hPhase⟩ := h.built hReduce hSeen hBuild _
    rw [hGoto]
    exact ⟨budget - 1, hFewer, hPhase⟩
  · rename_i cause hBuild
    exact ⟨budget - 1, hFewer, .takingBack (h.refused hReduce hBuild _ _)⟩
  · simp [Step.Continues]

/-- An unfitting token is reported, or starts the unwinding, or is dropped. In
each case there are fewer steps to go: the budget has room for taking back what
was read. -/
theorem Regular.recover (h : Regular policy input budget c spine) {la : Lookahead}
    (hAhead : c.lookahead = some la) (hDefault : default? (topState c.stack) = none) :
    (recover source c la).Continues policy input budget := by
  obtain ⟨stack, lookahead, pushedBack, quiet, rest, output⟩ := c
  obtain rfl : lookahead = some la := hAhead
  have hTaken := h.taken
  have hPaid := h.paid
  have hPos := h.budget_pos
  unfold Parse.recover
  split
  · simp [Step.Continues]
  cases hTaken with
  | finish => cases stack <;> simp [Step.Continues]
  | @token before _ t split =>
      cases stack with
      | nil =>
          have hSpine : spine = [] := List.forall₂_nil_left_iff.mp h.frames
          refine ⟨budget - 1, by omega, phase_of_empty h.taken.suffix quietPeriod output ?_⟩
          rw [hSpine] at hPaid
          simp only [GrammarSymbol.tokenPay, pending, Spine.tokens, Spine.size,
            List.length_nil] at hPaid
          rw [fullBudget, GrammarSymbol.tokenPay]
          dsimp only
          omega
      | cons top lower =>
          have hSize := h.linked.size_le
          have hLength := h.length_le
          have hLower := default?_of_mem_drop h.frames h.linked
          refine ⟨budget - 1, by omega, .takingBack ⟨rfl, rfl, ?_, h.taken.suffix, ?_⟩⟩
          · exact List.forall_mem_cons.mpr ⟨hDefault, hLower⟩
          · simp only [GrammarSymbol.tokenPay, pending] at hPaid hSize
            rw [GrammarSymbol.tokenPay]
            dsimp only at hLength ⊢
            omega

/-- Whatever token is at hand, a parse that reads on has fewer steps to go
afterwards: it shifts, applies a rule, or begins to take back. -/
theorem Regular.act (h : Regular policy input budget c spine) {la : Lookahead}
    (hAhead : c.lookahead = some la) (hDefault : default? (topState c.stack) = none) :
    (act policy source c la).Continues policy input budget := by
  have hPos := h.budget_pos
  unfold Parse.act
  split
  · rename_i state hAction
    obtain ⟨kind, hKind, hAction⟩ := Option.bind_eq_some_iff.mp hAction
    rw [← decision_of_no_default hDefault] at hAction
    cases la with
    | token t =>
        cases hKind
        exact ⟨budget - 1, by omega, .reading _ (h.shift hAhead hAction)⟩
    | finish =>
        cases hKind
        obtain ⟨target, -, hTarget⟩ | ⟨_, _, _, hEq, _⟩ | ⟨hEq, _⟩ :=
          decision_cases hAction
        · rw [target?_endOfInput] at hTarget
          cases hTarget
        · cases hEq
        · cases hEq
    | refused => cases hKind
  · rename_i rule hAction
    obtain ⟨kind, -, hAction⟩ := Option.bind_eq_some_iff.mp hAction
    rw [← decision_of_no_default hDefault] at hAction
    refine h.reduce hAction fun hNone => ?_
    rw [hAhead] at hNone
    cases hNone
  · split <;> simp [Step.Continues]
  · exact h.recover hAhead hDefault

/-- A rule that a state reduces by without looking does not await a token that
is not at hand. -/
theorem Regular.awaits_of_default (h : Regular policy input budget c spine) {rule : Rule}
    (hDefault : default? (topState c.stack) = some rule) (hNone : c.lookahead = none) :
    awaitsToken (.n rule.production.phrase) = false := by
  rw [h.topState_eq] at hDefault
  have hLinked := h.linked
  cases hLinked with
  | nil =>
      rw [topOf, default?_zero] at hDefault
      cases hDefault
  | cons edge _ _ =>
      rw [Bool.eq_false_iff]
      intro hAwaits
      have hTop := awaitsToken_of_default? edge hDefault hAwaits
      rw [h.seen hNone _ rfl] at hTop
      cases hTop

/-- A parse that reads on has fewer steps to go after a step. -/
theorem Regular.step (h : Regular policy input budget c spine) (source : String) :
    (step policy source c).Continues policy input budget := by
  cases hDefault : default? (topState c.stack) with
  | some rule =>
      rw [step_of_default hDefault]
      exact h.reduce (decision_of_default hDefault .endOfInput) (h.awaits_of_default hDefault)
  | none =>
      obtain ⟨la, looked, hLook, hAhead, hLooked⟩ | ⟨fault, out, hLook⟩ := h.look
      · rw [step_of_look_ok hDefault hLook]
        exact hLooked.act hAhead (by rwa [look_stack hLook])
      · rw [step_of_look_error hDefault hLook]
        simp [Step.Continues]

/-- The state on top is taken back; from the bottom the parse begins anew. -/
def Config.takeBack (c : Config) : Config :=
  match c.stack with
  | [] => .anew c.input c.output
  | _ :: rest => { c with stack := rest }

/-- With the mark of a refusal at hand, a state that does not act by itself is
taken back. -/
theorem step_of_refused (h : c.lookahead = some .refused) (hQuiet : c.quiet = quietPeriod)
    (hDefault : default? (topState c.stack) = none) : step policy source c = .next c.takeBack := by
  obtain ⟨stack, lookahead, pushedBack, quiet, rest, output⟩ := c
  obtain rfl : lookahead = some .refused := h
  obtain rfl : quiet = quietPeriod := hQuiet
  rw [step_of_look_ok hDefault rfl]
  cases stack <;> rfl

theorem Unwinding.default?_eq (h : Unwinding input budget c) :
    default? (topState c.stack) = none := by
  have hPlain := h.plain
  cases hStack : c.stack with
  | nil => exact default?_zero
  | cons top lower =>
      rw [hStack] at hPlain
      exact hPlain top (.head _)

/-- A parse that takes back its states has fewer steps to go after a step. -/
theorem Unwinding.step (h : Unwinding input budget c) (policy : ElementPolicy) (source : String) :
    (step policy source c).Continues policy input budget := by
  rw [step_of_refused h.lookahead_eq h.quiet_eq h.default?_eq, Config.takeBack]
  have hPaid := h.paid
  have hPlain := h.plain
  cases hStack : c.stack with
  | nil =>
      refine ⟨budget - 1, by omega, phase_of_empty h.suffix quietPeriod c.output ?_⟩
      rw [hStack, List.length_nil] at hPaid
      rw [fullBudget]
      omega
  | cons top lower =>
      rw [hStack] at hPaid hPlain
      refine ⟨budget - 1, by omega,
        .takingBack ⟨h.lookahead_eq, h.quiet_eq, ?_, h.suffix, ?_⟩⟩
      · exact fun frame hFrame => hPlain frame (.tail _ hFrame)
      · rw [List.length_cons] at hPaid
        dsimp only
        omega

theorem Phase.step (h : Phase policy input budget c) (source : String) :
    (step policy source c).Continues policy input budget := by
  cases h with
  | reading spine regular => exact regular.step source
  | takingBack unwinding => exact unwinding.step policy source

/-! ### Whole parses -/

/-- Steps that lead somewhere and steps that lead on from there are added
up. -/
theorem Leads.trans {first second : Nat} {middle last : Config}
    (left : Leads policy source c first middle) (right : Leads policy source middle second last) :
    Leads policy source c (first + second) last := by
  induction right with
  | zero => exact left
  | succ _ next ih => exact .succ ih next

/-- Steps that are taken are not taken again. -/
theorem Phase.leads {steps : Nat} {last : Config} (hLeads : Leads policy source c steps last)
    (h : Phase policy input budget c) :
    ∃ left, steps + left ≤ budget ∧ Phase policy input left last := by
  induction hLeads with
  | zero => exact ⟨budget, Nat.le_of_eq (Nat.zero_add budget), h⟩
  | succ _ next ih =>
      obtain ⟨left, hLeft, hMiddle⟩ := ih
      have hStep := hMiddle.step source
      rw [next] at hStep
      obtain ⟨fewer, hFewer, hLast⟩ := hStep
      exact ⟨fewer, by omega, hLast⟩

/-- Every parse comes to an end, within its budget. -/
theorem Phase.finishes (h : Phase policy input budget c) (source : String) :
    ∃ steps last parsed, steps ≤ budget ∧ Leads policy source c steps last ∧
      Parse.step policy source last = .done parsed ∧ parsed.outcome ≠ .unfinished := by
  induction budget using Nat.strongRecOn generalizing c with
  | ind budget ih =>
      have hStep := h.step source
      cases hNext : Parse.step policy source c with
      | done parsed =>
          rw [hNext] at hStep
          exact ⟨0, c, parsed, Nat.zero_le _, .zero, hNext, hStep⟩
      | next next =>
          rw [hNext] at hStep
          obtain ⟨fewer, hFewer, hPhase⟩ := hStep
          obtain ⟨steps, last, parsed, hSteps, hLeads, hDone, hFinished⟩ :=
            ih fewer hFewer hPhase
          exact ⟨steps + 1, last, parsed, by omega, .head hNext hLeads, hDone, hFinished⟩

/-- A run that is allowed more steps than lead to the end returns what is
returned there. -/
theorem run_of_leads {steps more : Nat} {last : Config} {parsed : Parsed}
    (h : Leads policy source c steps last) (hDone : Parse.step policy source last = .done parsed)
    (hMore : steps < more) :
    run policy source more c = parsed := by
  obtain ⟨rest, rfl⟩ := Nat.exists_eq_add_of_lt hMore
  rw [Nat.add_assoc, run_add h, run, hDone]

end phases

end Parse

end PageScript
