import Mathlib.Data.List.Forall2
import PageScript.Proofs.Automaton.Soundness
import PageScript.Proofs.Parse.Steps

/-! As long as no rule fails to build, a parse mirrors the automaton at work on
derivations: each phrase on its stack is the value of the derivation at the
same place of the spine, and the tokens that neither has read are the same. -/
namespace PageScript.Parse

open Automaton PageScript.Derivation
open Lexer (Lexeme collect)

/-- What is looked at when these tokens are still to come. -/
def front : List Token → Lookahead
  | [] => .finish
  | t :: _ => .token t

theorem kind?_front (tokens : List Token) : (front tokens).kind? = some (headKind tokens) := by
  cases tokens <;> rfl

/-- The tokens still to come: the one at hand, and those of the lexemes that
are left. -/
inductive Ahead : Option Lookahead → List Lexeme → List Token → Prop where
  | unread (input : List Lexeme) : Ahead none input (collect input).tokens
  | token (t : Token) (input : List Lexeme) :
      Ahead (some (.token t)) input (t :: (collect input).tokens)
  | finish : Ahead (some .finish) [] []

/-- The frame holds the state and the value of the derivation. -/
def Holds (policy : ElementPolicy) (frame : Frame) (entry : Nat × Derivation) : Prop :=
  frame.state = entry.1 ∧ entry.2.value policy = .ok frame.phrase

/-- The parse is where the automaton is. `fault` is what the scanner complains
about once all tokens have been read. -/
structure Mirrors (policy : ElementPolicy) (fault : Option NumeralFault) (c : Config) (g : Growth) :
    Prop where
  frames : List.Forall₂ (Holds policy) c.stack g.spine
  ahead : Ahead c.lookahead c.input g.rest
  fault_eq : (collect c.input).fault = fault
  pushedBack_eq : c.pushedBack = []
  quiet_eq : c.quiet = 0

theorem mirrors_start (policy : ElementPolicy) (input : List Lexeme) :
    Mirrors policy (collect input).fault (Config.start input)
      (Growth.start (collect input).tokens) :=
  ⟨.nil, .unread input, rfl, rfl, rfl⟩

/-- Reading a token takes the first of those to come, or finds the end, or a
number that cannot be read. -/
theorem nextToken_cases (input : List Lexeme) (output : String) :
    (∃ t rest out, nextToken input output = (.ok (.token t), rest, out) ∧
      (collect input).tokens = t :: (collect rest).tokens ∧
        (collect rest).fault = (collect input).fault) ∨
    (∃ out, nextToken input output = (.ok .finish, [], out) ∧
      (collect input).tokens = [] ∧ (collect input).fault = none) ∨
    (∃ fault rest out, nextToken input output = (.error (.numeral fault), rest, out) ∧
      (collect input).fault = some fault) := by
  induction input generalizing output with
  | nil => exact .inr (.inl ⟨output, rfl, rfl, rfl⟩)
  | cons first rest ih =>
      cases first with
      | token t => exact .inl ⟨t, rest, output, rfl, rfl, rfl⟩
      | stray c line place => exact ih _
      | overlong digits => exact .inr (.inr ⟨_, rest, output, rfl, rfl⟩)

section mirroring

variable {policy : ElementPolicy} {source : String} {fault : Option NumeralFault} {c : Config}
    {g : Growth}

theorem topState_eq_of_holds {stack : List Frame} {spine : Spine}
    (h : List.Forall₂ (Holds policy) stack spine) : topState stack = topOf spine := by
  cases h with
  | nil => rfl
  | cons first _ => exact first.1

/-- A mirroring parse looks at the first token to come, if the scanner can read
on. If it cannot, the parse ends with the fault of the scanner. -/
theorem Mirrors.look (h : Mirrors policy fault c g) :
    (∃ looked, c.look = .ok (front g.rest, looked) ∧ Mirrors policy fault looked g ∧
      looked.lookahead = some (front g.rest)) ∨
    (∃ f out, fault = some f ∧ c.look = .error ⟨.failed (.numeral f), out⟩) := by
  obtain ⟨stack, lookahead, pushedBack, quiet, input, output⟩ := c
  obtain ⟨spine, rest⟩ := g
  obtain ⟨frames, ahead, fault_eq, rfl, rfl⟩ := h
  cases ahead with
  | token t => exact .inl ⟨_, rfl, ⟨frames, .token t input, fault_eq, rfl, rfl⟩, rfl⟩
  | finish => exact .inl ⟨_, rfl, ⟨frames, .finish, fault_eq, rfl, rfl⟩, rfl⟩
  | unread =>
      obtain ⟨t, left, out, hNext, hTokens, hFault⟩ | ⟨out, hNext, hTokens, hFault⟩ |
        ⟨f, left, out, hNext, hFault⟩ := nextToken_cases input output
      · have hAhead : Ahead (some (.token t)) left (collect input).tokens := by
          rw [hTokens]
          exact .token t left
        refine .inl ⟨⟨stack, some (.token t), [], 0, left, out⟩, ?_, ?_, ?_⟩
        · simp only [Config.look, hNext, hTokens, front]
        · exact ⟨frames, hAhead, hFault.trans fault_eq, rfl, rfl⟩
        · simp only [hTokens, front]
      · have hAhead : Ahead (some .finish) [] (collect input).tokens := by
          rw [hTokens]
          exact .finish
        refine .inl ⟨⟨stack, some .finish, [], 0, [], out⟩, ?_, ?_, ?_⟩
        · simp only [Config.look, hNext, hTokens, front]
        · exact ⟨frames, hAhead, hFault.symm.trans fault_eq, rfl, rfl⟩
        · simp only [hTokens, front]
      · refine .inr ⟨f, out, fault_eq.symm.trans hFault, ?_⟩
        simp only [Config.look, hNext]

/-- Phrases that are the values of derivations one by one are their values in a
row. -/
theorem values_of_forall₂ {ds : List Derivation} {phrases : List Phrase}
    (h : List.Forall₂ (fun d p => d.value policy = .ok p) ds phrases) :
    values policy ds = .ok phrases := by
  induction h with
  | nil => rfl
  | cons first _ ih => exact values_cons_ok first ih

/-- The phrases on top of a stack are the values of the derivations on top of
its spine. -/
theorem values_eq_of_holds {spine : Spine} (h : List.Forall₂ (Holds policy) c.stack spine)
    (rule : Rule) :
    values policy (Spine.parts (spine.take rule.size)) = .ok (c.parts rule) := by
  refine values_of_forall₂ ?_
  rw [Spine.parts, Config.parts, List.forall₂_map_left_iff, List.forall₂_map_right_iff,
    List.forall₂_reverse_iff]
  exact (List.forall₂_take rule.size h).flip.imp fun _ _ hHolds => hHolds.2

/-- The phrases that a rule joins are the values of the derivations it
joins. -/
theorem Mirrors.values_eq (h : Mirrors policy fault c g) (rule : Rule) :
    values policy (Spine.parts (g.spine.take rule.size)) = .ok (c.parts rule) :=
  values_eq_of_holds h.frames rule

/-- A rule that builds leads to where the automaton goes with it. -/
theorem Mirrors.reduce_ok (h : Mirrors policy fault c g) (hSpine : Linked g.spine) {rule : Rule}
    (hDecision : g.decision = some (.reduce rule)) {p : Phrase}
    (hBuild : (Build.build policy rule (c.parts rule)).result = .ok p) :
    ∃ next grown, Growth.Step g grown ∧ reduce policy c rule = .next next ∧
      Mirrors policy fault next grown := by
  obtain ⟨-, state, hLeads⟩ := hSpine.reduction hDecision
  have hFrames := List.forall₂_drop rule.size h.frames
  have hBelow : topState (c.stack.drop rule.size) = topOf (g.spine.drop rule.size) :=
    topState_eq_of_holds hFrames
  have hValue : (node rule (Spine.parts (g.spine.take rule.size))).value policy = .ok p :=
    (value_node_ok (h.values_eq rule)).trans hBuild
  let printed := c.output ++ (Build.build policy rule (c.parts rule)).output
  refine ⟨{ c with stack := ⟨state, p⟩ :: c.stack.drop rule.size, output := printed },
    g.reduced rule state, .reduce hDecision hLeads, ?_,
    ⟨.cons ⟨rfl, hValue⟩ hFrames, h.ahead, h.fault_eq, h.pushedBack_eq, h.quiet_eq⟩⟩
  rw [← goto?_eq_target?, ← hBelow] at hLeads
  unfold Config.parts at hBuild
  simp only [reduce, hBuild, hLeads, printed, Config.parts]

/-- How a mirroring parse can stop. -/
inductive Stops (policy : ElementPolicy) (source : String) (fault : Option NumeralFault)
    (c : Config) (g : Growth) : Prop where
  /-- A rule fails to build. -/
  | raises {entry : Rule × Fault} (failure : c.failure? policy = some entry)
  /-- All tokens have been read, and the top of the spine is accepted. -/
  | accepts {d : Derivation} {below : Spine} {p : Phrase} {out : String}
      (decides : g.decision = some .accept)
      (unread : g.rest = []) (faultless : fault = none)
      (spine_eq : g.spine = (programState, d) :: below)
      (value_eq : d.value policy = .ok p)
      (ends : step policy source c = .done ⟨.accepted p, out⟩)
  /-- The next token does not fit. -/
  | misfits {out : String} (decides : g.decision = none)
      (ends : step policy source c = .done ⟨.failed (unfitting source (front g.rest)), out⟩)
  /-- The next token cannot be read. -/
  | breaks {f : NumeralFault} {out : String} (faulty : fault = some f)
      (ends : step policy source c = .done ⟨.failed (.numeral f), out⟩)

/-- A mirroring parse goes on as the automaton does, or it stops. -/
inductive Moves (policy : ElementPolicy) (source : String) (fault : Option NumeralFault)
    (c : Config) (g : Growth) : Prop where
  | grows {next : Config} {grown : Growth} (grow : Growth.Step g grown)
      (step_eq : step policy source c = .next next) (mirrors : Mirrors policy fault next grown)
  | stops (stop : Stops policy source fault c g)

section looked

variable {looked : Config}

/-- Either the rule builds and the parse grows, or it raises. -/
theorem Mirrors.moves_of_reduce (h : Mirrors policy fault looked g) (hSpine : Linked g.spine)
    {rule : Rule} (hDecision : g.decision = some (.reduce rule)) (hStack : looked.stack = c.stack)
    (hRule : c.rule? = some rule) (hStep : step policy source c = reduce policy looked rule) :
    Moves policy source fault c g := by
  have hParts : looked.parts rule = c.parts rule := by rw [Config.parts, hStack, Config.parts]
  cases hBuild : (Build.build policy rule (c.parts rule)).result with
  | ok p =>
      rw [← hParts] at hBuild
      obtain ⟨next, grown, hGrow, hReduce, hNext⟩ := h.reduce_ok hSpine hDecision hBuild
      exact .grows hGrow (hStep.trans hReduce) hNext
  | error cause => exact .stops (.raises (failure?_eq_some_iff.mpr ⟨hRule, hBuild⟩))

/-- A token at hand is shifted as the automaton shifts it. The end of the input
is never shifted. -/
theorem Mirrors.moves_of_shift (h : Mirrors policy fault looked g)
    (hAhead : looked.lookahead = some (front g.rest)) {state : Nat}
    (hDecision : g.decision = some (.shift state))
    (hStep : step policy source c = .next { looked with
      stack := ⟨state, (front g.rest).phrase⟩ :: looked.stack
      lookahead := none
      quiet := looked.quiet - 1 }) :
    Moves policy source fault c g := by
  obtain ⟨spine, rest⟩ := g
  cases rest with
  | nil =>
      obtain ⟨target, -, hTarget⟩ | ⟨_, _, _, hEq, _⟩ | ⟨hEq, _⟩ :=
        decision_cases hDecision
      · rw [headKind, target?_endOfInput] at hTarget
        cases hTarget
      · cases hEq
      · cases hEq
  | cons t rest =>
      have hLeft : Ahead none looked.input rest := by
        have hTokens := h.ahead
        rw [hAhead] at hTokens
        cases hTokens
        exact .unread _
      exact .grows (.shift hDecision) hStep
        ⟨.cons ⟨rfl, rfl⟩ h.frames, hLeft, h.fault_eq, h.pushedBack_eq,
          by simp [h.quiet_eq]⟩

/-- Where the automaton accepts, all tokens have been read, and the program is
on top. The state that accepts is reached with one derivation only, and before
the end of the input only. -/
theorem Mirrors.moves_of_accept (h : Mirrors policy fault looked g)
    (hAhead : looked.lookahead = some (front g.rest))
    (hRest : ∀ t ∈ g.rest, t.kind ≠ .endOfInput) (hDecision : g.decision = some .accept)
    (hStep : ∀ frame rest, looked.stack = frame :: rest →
      step policy source c = .done ⟨.accepted frame.phrase, looked.output⟩) :
    Moves policy source fault c g := by
  obtain ⟨_, hEq, _⟩ | ⟨_, _, _, hEq, _⟩ | ⟨-, hTop, hEnd⟩ := decision_cases hDecision
  · cases hEq
  · cases hEq
  obtain ⟨spine, rest⟩ := g
  obtain rfl : rest = [] := by
    cases rest with
    | nil => rfl
    | cons t _ => exact absurd hEnd (hRest t (.head _))
  have hFault : fault = none := by
    have hTokens := h.ahead
    rw [hAhead] at hTokens
    rw [← h.fault_eq]
    cases hInput : looked.input with
    | nil => rfl
    | cons _ _ =>
        rw [hInput] at hTokens
        cases hTokens
  obtain ⟨stack, lookahead, pushedBack, quiet, input, output⟩ := looked
  have hFrames := h.frames
  cases hFrames with
  | nil => cases hTop
  | @cons frame entry stack spine first others =>
      obtain ⟨state, d⟩ := entry
      obtain rfl : state = programState := hTop
      exact .stops (.accepts hDecision rfl hFault rfl first.2 (hStep _ _ rfl))

end looked

/-- What the automaton does, seen from the parse. -/
theorem Mirrors.decision_eq (h : Mirrors policy fault c g) :
    g.decision = Automaton.decision (topState c.stack) (headKind g.rest) := by
  rw [Growth.decision, topState_eq_of_holds h.frames]

/-- A rule that the parse applies is the one that the automaton reduces by. -/
theorem Mirrors.decision_of_rule? (h : Mirrors policy fault c g) {rule : Rule}
    (hRule : c.rule? = some rule) :
    g.decision = some (.reduce rule) := by
  rw [h.decision_eq]
  cases hDefault : default? (topState c.stack) with
  | some rule' =>
      rw [rule?_of_default hDefault] at hRule
      cases hRule
      exact decision_of_default hDefault _
  | none =>
      obtain ⟨looked, hLook, -, -⟩ | ⟨f, out, -, hLook⟩ := h.look
      · rw [rule?_eq_some_iff_of_look hDefault hLook, kind?_front] at hRule
        exact (decision_of_no_default hDefault _).trans hRule
      · rw [rule?_of_look_error hDefault hLook] at hRule
        cases hRule

/-- One step of a mirroring parse: it moves with the automaton and mirrors it
again, or both stop, or a rule fails to build. The cases are the decisions of
the automaton. -/
theorem Mirrors.moves (h : Mirrors policy fault c g) (hSpine : Linked g.spine)
    (hRest : ∀ t ∈ g.rest, t.kind ≠ .endOfInput) : Moves policy source fault c g := by
  cases hDefault : default? (topState c.stack) with
  | some rule =>
      have hRule := rule?_of_default hDefault
      exact h.moves_of_reduce hSpine (h.decision_of_rule? hRule) rfl hRule
        (step_of_default hDefault)
  | none =>
      obtain ⟨looked, hLook, hLooked, hAhead⟩ | ⟨f, out, hFault, hLook⟩ := h.look
      · have hStack := look_stack hLook
        have hStep : step policy source c = act policy source looked (front g.rest) :=
          step_of_look_ok hDefault hLook
        have hAction : (front g.rest).kind?.bind (action? (topState c.stack)) = g.decision := by
          rw [h.decision_eq, decision_of_no_default hDefault, kind?_front, Option.bind_some]
        unfold act at hStep
        rw [hStack, hAction] at hStep
        cases hDecision : g.decision with
        | none =>
            rw [hDecision] at hStep
            have hRecover : recover source looked (front g.rest) =
                .done ⟨.failed (unfitting source (front g.rest)), looked.output⟩ := by
              rw [recover, if_pos hLooked.quiet_eq]
            exact .stops (.misfits hDecision (hStep.trans hRecover))
        | some action =>
            rw [hDecision] at hStep
            cases action with
            | shift state => exact hLooked.moves_of_shift hAhead hDecision (by rw [hStep, hStack])
            | reduce rule =>
                have hRule : c.rule? = some rule := by
                  rw [rule?_eq_some_iff_of_look hDefault hLook, hAction, hDecision]
                exact hLooked.moves_of_reduce hSpine hDecision hStack hRule hStep
            | accept =>
                refine hLooked.moves_of_accept hAhead hRest hDecision fun frame rest hFrames => ?_
                rw [hStack] at hFrames
                rw [hStep, hFrames]
      · exact .stops (.breaks hFault (step_of_look_error hDefault hLook))

end mirroring

end PageScript.Parse
