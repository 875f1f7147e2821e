import PageScript.Proofs.Grammar.Formed
import PageScript.Proofs.Parse.Mirror

/-! Where the phrases of a parse come from. Whatever happens on the way,
recoveries included, each phrase on the stack is the value of a derivation over
tokens of the input. Main statement: so is every program that a parse accepts,
and where elements are refused it is made of statements that a script can
write. -/
namespace PageScript.Parse

open Automaton PageScript.Derivation
open Lexer (Lexeme collect)

/-- The stack holds the values of linked derivations over good tokens. -/
def GroundedStack (policy : ElementPolicy) (good : Token → Prop) (stack : List Frame) : Prop :=
  ∃ spine : Spine, List.Forall₂ (Holds policy) stack spine ∧ Linked spine ∧
    ∀ t ∈ Spine.tokens spine, good t

/-- Every token that the parse holds or will read is good. -/
structure Grounded (policy : ElementPolicy) (good : Token → Prop) (c : Config) : Prop where
  stack : GroundedStack policy good c.stack
  lookahead : ∀ t, c.lookahead = some (.token t) → good t
  pushedBack : ∀ t, some (Lookahead.token t) ∈ c.pushedBack → good t
  input : ∀ t ∈ (collect c.input).tokens, good t

/-- The phrase is the value of a program over good tokens. -/
def Stems (policy : ElementPolicy) (good : Token → Prop) (p : Phrase) : Prop :=
  ∃ d : Derivation, d.Valid ∧ d.symbol = .n .program ∧ d.value policy = .ok p ∧
    ∀ t ∈ d.tokens, good t

/-- A step that leads to a grounded parse, or ends it with nothing but a
grounded program. -/
def Step.Sound (policy : ElementPolicy) (good : Token → Prop) : Step → Prop
  | .next c => Grounded policy good c
  | .done parsed => ∀ p, parsed.outcome = .accepted p → Stems policy good p

section grounding

variable {policy : ElementPolicy} {good : Token → Prop} {stack : List Frame}

theorem groundedStack_nil : GroundedStack policy good [] :=
  ⟨[], .nil, .nil, List.forall_mem_nil _⟩

/-- What is left of a grounded stack when frames are taken off is grounded. -/
theorem GroundedStack.drop (h : GroundedStack policy good stack) (count : Nat) :
    GroundedStack policy good (stack.drop count) := by
  obtain ⟨spine, hFrames, hLinked, hTokens⟩ := h
  rw [← List.take_append_drop count spine] at hLinked hTokens
  refine ⟨spine.drop count, List.forall₂_drop count hFrames, hLinked.append_right,
    fun t ht => hTokens t ?_⟩
  rw [Spine.tokens_append]
  exact List.mem_append_left _ ht

/-- A token that the automaton shifts. -/
theorem GroundedStack.shift (h : GroundedStack policy good stack) {t : Token} (ht : good t)
    {state : Nat} (hShift : decision (topState stack) t.kind = some (.shift state)) :
    GroundedStack policy good (⟨state, .leaf t.value⟩ :: stack) := by
  obtain ⟨spine, hFrames, hLinked, hTokens⟩ := h
  rw [topState_eq_of_holds hFrames] at hShift
  have hStep : Growth.Step ⟨spine, [t]⟩ ⟨(state, .leaf t) :: spine, []⟩ := .shift hShift
  refine ⟨(state, .leaf t) :: spine, .cons ⟨rfl, rfl⟩ hFrames, (hStep.sound hLinked).1,
    fun u hu => ?_⟩
  rcases List.mem_append.mp hu with hu | hu
  · exact hTokens u hu
  · cases List.mem_singleton.mp hu
    exact ht

/-- A rule that the automaton reduces by, and that builds. -/
theorem GroundedStack.reduce {c : Config} (h : GroundedStack policy good c.stack) {kind : Terminal}
    {rule : Rule} (hReduce : decision (topState c.stack) kind = some (.reduce rule)) {p : Phrase}
    (hBuild : (Build.build policy rule (c.parts rule)).result = .ok p) {state : Nat}
    (hGoto : goto? (topState (c.stack.drop rule.size)) rule.production.phrase = some state) :
    GroundedStack policy good (⟨state, p⟩ :: c.stack.drop rule.size) := by
  obtain ⟨spine, hFrames, hLinked, hTokens⟩ := h
  have hDropped := List.forall₂_drop rule.size hFrames
  rw [topState_eq_of_holds hFrames] at hReduce
  rw [goto?_eq_target?, topState_eq_of_holds hDropped] at hGoto
  obtain ⟨hNext, hSame, -⟩ := hLinked.reduced hReduce hGoto
  have hValue := (value_node_ok (values_eq_of_holds hFrames rule)).trans hBuild
  refine ⟨_, .cons ⟨rfl, hValue⟩ hDropped, hNext, ?_⟩
  rwa [hSame]

/-- Where the automaton accepts, a whole program is on top. -/
theorem GroundedStack.accept {frame : Frame} {rest : List Frame}
    (h : GroundedStack policy good (frame :: rest)) {kind : Terminal}
    (hAccept : decision frame.state kind = some .accept) : Stems policy good frame.phrase := by
  obtain ⟨_, hEq, _⟩ | ⟨_, _, _, hEq, _⟩ | ⟨-, hTop, -⟩ := decision_cases hAccept
  · cases hEq
  · cases hEq
  obtain ⟨spine, hFrames, hLinked, hTokens⟩ := h
  obtain ⟨d, rfl, hSymbol⟩ :=
    Growth.Linked.accepting hLinked ((topState_eq_of_holds hFrames).symm.trans hTop)
  cases hFrames with
  | cons first _ =>
      exact ⟨d, hLinked.valid_of_mem (.head _), hSymbol, first.2,
        fun t ht => hTokens t (by simpa [Spine.tokens])⟩

end grounding

section steps

variable {policy : ElementPolicy} {good : Token → Prop} {source : String} {c : Config}

theorem grounded_start {input : List Lexeme} (h : ∀ t ∈ (collect input).tokens, good t) :
    Grounded policy good (Config.start input) :=
  ⟨groundedStack_nil, by rintro _ ⟨⟩, by rintro _ ⟨⟩, h⟩

/-- A grounded parse that looks at the next token stays grounded, and has the
token at hand. It is taken from those given back, or else from the input. -/
theorem Grounded.look (h : Grounded policy good c) {la : Lookahead} {looked : Config}
    (hLook : c.look = .ok (la, looked)) :
    Grounded policy good looked ∧ looked.lookahead = some la := by
  obtain ⟨stack, lookahead, pushedBack, quiet, input, output⟩ := c
  cases lookahead with
  | some held =>
      cases hLook
      exact ⟨h, rfl⟩
  | none =>
      cases pushedBack with
      | cons back others =>
          cases hLook
          refine ⟨⟨h.stack, fun t ht => h.pushedBack t ?_,
            fun t ht => h.pushedBack t (.tail _ ht), h.input⟩, rfl⟩
          cases back with
          | none => cases ht
          | some held =>
              cases ht
              exact .head _
      | nil =>
          obtain ⟨t, left, out, hNext, hTokens, -⟩ | ⟨out, hNext, -, -⟩ |
              ⟨f, left, out, hNext, -⟩ :=
            nextToken_cases input output
          · simp only [Config.look, hNext] at hLook
            cases hLook
            have hInput := h.input
            rw [hTokens, List.forall_mem_cons] at hInput
            refine ⟨⟨h.stack, fun u hu => ?_, h.pushedBack, hInput.2⟩, rfl⟩
            cases hu
            exact hInput.1
          · simp only [Config.look, hNext] at hLook
            cases hLook
            exact ⟨⟨h.stack, by rintro _ ⟨⟩, h.pushedBack, List.forall_mem_nil _⟩, rfl⟩
          · simp only [Config.look, hNext] at hLook
            cases hLook

/-- A rule that refuses drops the top of the stack and keeps what was looked
at. -/
theorem Grounded.reduce (h : Grounded policy good c) {kind : Terminal} {rule : Rule}
    (hReduce : decision (topState c.stack) kind = some (.reduce rule)) :
    (reduce policy c rule).Sound policy good := by
  unfold Parse.reduce
  dsimp only
  split
  · rename_i p hBuild
    split
    · rename_i state hGoto
      exact ⟨h.stack.reduce hReduce hBuild hGoto, h.lookahead, h.pushedBack, h.input⟩
    · rintro _ ⟨⟩
  · refine ⟨h.stack.drop 1, by rintro _ ⟨⟩, fun t ht => ?_, h.input⟩
    rcases List.mem_cons.mp ht with ht | ht
    · exact h.lookahead t ht.symm
    · exact h.pushedBack t ht
  · rintro _ ⟨⟩

/-- A recovery takes frames off or gives tokens back, so the parse stays
grounded. -/
theorem Grounded.recover (h : Grounded policy good c) {la : Lookahead}
    (hAhead : c.lookahead = some la) :
    (recover source c la).Sound policy good := by
  obtain ⟨stack, lookahead, pushedBack, quiet, input, output⟩ := c
  unfold Parse.recover
  split
  · rintro _ ⟨⟩
  dsimp only
  split
  · rintro _ ⟨⟩
  · exact ⟨h.stack, by rintro _ ⟨⟩, by rintro _ ⟨⟩, h.input⟩
  · exact ⟨h.stack.drop 1, h.lookahead, h.pushedBack, h.input⟩
  · refine ⟨h.stack, by rintro _ ⟨⟩, fun t ht => ?_, h.input⟩
    rcases List.mem_cons.mp ht with ht | ht
    · cases ht
      exact h.lookahead _ hAhead
    · exact h.pushedBack t ht

/-- Whatever token is at hand, a grounded parse stays grounded: it shifts,
reduces, accepts or recovers. The end of the input is never shifted. -/
theorem Grounded.act (h : Grounded policy good c) {la : Lookahead} (hAhead : c.lookahead = some la)
    (hDefault : default? (topState c.stack) = none) :
    (act policy source c la).Sound policy good := by
  unfold Parse.act
  split
  · rename_i state hAction
    obtain ⟨kind, hKind, hAction⟩ := Option.bind_eq_some_iff.mp hAction
    rw [← decision_of_no_default hDefault] at hAction
    cases la with
    | token t =>
        cases hKind
        exact ⟨h.stack.shift (h.lookahead t hAhead) hAction,
          by rintro _ ⟨⟩, h.pushedBack, h.input⟩
    | finish =>
        cases hKind
        obtain ⟨target, -, hTarget⟩ | ⟨_, _, _, hEq, _⟩ | ⟨hEq, _⟩ :=
          decision_cases hAction
        · rw [target?_endOfInput] at hTarget
          cases hTarget
        · cases hEq
        · cases hEq
    | refused => cases hKind
  · rename_i rule hAction
    obtain ⟨kind, -, hAction⟩ := Option.bind_eq_some_iff.mp hAction
    rw [← decision_of_no_default hDefault] at hAction
    exact h.reduce hAction
  · rename_i hAction
    obtain ⟨kind, -, hAction⟩ := Option.bind_eq_some_iff.mp hAction
    rw [← decision_of_no_default hDefault] at hAction
    split
    · rename_i frame rest hStack
      rw [hStack] at hAction
      intro p hp
      cases hp
      exact GroundedStack.accept (hStack ▸ h.stack) hAction
    · rintro _ ⟨⟩
  · exact h.recover hAhead

/-- One step of a grounded parse. -/
theorem Grounded.step (h : Grounded policy good c) : (step policy source c).Sound policy good := by
  cases hDefault : default? (topState c.stack) with
  | some rule =>
      rw [step_of_default hDefault]
      exact h.reduce (decision_of_default hDefault .endOfInput)
  | none =>
      cases hLook : c.look with
      | ok seen =>
          obtain ⟨la, looked⟩ := seen
          obtain ⟨hLooked, hAhead⟩ := h.look hLook
          rw [step_of_look_ok hDefault hLook]
          exact hLooked.act hAhead (by rwa [look_stack hLook])
      | error parsed =>
          rw [step_of_look_error hDefault hLook]
          unfold Config.look at hLook
          split at hLook
          · cases hLook
          · cases hLook
          · split at hLook <;> cases hLook
            rintro _ ⟨⟩

/-- A run accepts nothing but what stems from its tokens. -/
theorem Grounded.run (h : Grounded policy good c) (steps : Nat) {p : Phrase}
    (hRun : (run policy source steps c).outcome = .accepted p) : Stems policy good p := by
  induction steps generalizing c with
  | zero => cases hRun
  | succ steps ih =>
      have hStep : (Parse.step policy source c).Sound policy good := h.step
      rw [Parse.run] at hRun
      cases hNext : Parse.step policy source c with
      | next next =>
          rw [hNext] at hRun hStep
          exact ih hStep hRun
      | done parsed =>
          rw [hNext] at hRun hStep
          exact hStep p hRun

end steps

/-- A program that a parse accepts is the value of a derivation over tokens of
the input. -/
theorem stems_of_accepted {policy : ElementPolicy} {source : String} {input : List Lexeme}
    {p : Phrase} (h : (parseLexemes policy source input).outcome = .accepted p) :
    Stems policy (· ∈ (collect input).tokens) p :=
  (grounded_start fun _ ht => ht).run _ h

/-- Where elements are refused, a parse returns statements that a script can
write, or it has given up. What is accepted is the value of a derivation over
scanned tokens, to which the forms of the grammar apply. -/
theorem formed_of_tree {source : String} {root : Node}
    (h : (parse .refuse source).tree = .ok root) :
    root = .missing ∨ ∃ ns, root = .program ns ∧ ∀ s ∈ ns, IsStatement s := by
  cases hOutcome : (parse .refuse source).outcome with
  | accepted p =>
      obtain ⟨d, hValid, hSymbol, hValue, hTokens⟩ := stems_of_accepted hOutcome
      have hHolds := hValid.value_holds (fun t ht => Lexer.reads_of_mem_scan (hTokens t ht)) hValue
      rw [hSymbol] at hHolds
      cases hHolds with
      | program stated =>
          rw [Parsed.tree, hOutcome] at h
          cases h
          exact .inr ⟨_, rfl, stated⟩
  | abandoned =>
      rw [Parsed.tree, hOutcome] at h
      cases h
      exact .inl rfl
  | failed fault =>
      rw [Parsed.tree, hOutcome] at h
      cases h
  | unfinished =>
      rw [Parsed.tree, hOutcome] at h
      cases h

end PageScript.Parse
