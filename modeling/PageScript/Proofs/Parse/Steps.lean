import PageScript.Parse

/-! The steps of a parse: what a step looks at, which rule it applies, and what
it means that the rule fails to build. -/
namespace PageScript.Parse

open Lexer (Lexeme collect)

/-- Look at the next token: it is at hand, taken back, or read. The
configuration has it at hand afterwards, unless the parse ends because it
cannot be read. -/
def Config.look (c : Config) : Except Parsed (Lookahead × Config) :=
  match c.lookahead, c.pushedBack with
  | some la, _ => .ok (la, c)
  | none, la :: rest =>
    .ok (la.getD .finish, { c with lookahead := some (la.getD .finish), pushedBack := rest })
  | none, [] =>
    match nextToken c.input c.output with
    | (.ok la, input, output) =>
      .ok (la, { c with lookahead := some la, input := input, output := output })
    | (.error fault, _, output) => .error ⟨.failed fault, output⟩

/-- A state that acts by itself applies its rule without looking at a token. -/
theorem step_of_default {policy : ElementPolicy} {source : String} {c : Config} {rule : Rule}
    (h : Automaton.default? (topState c.stack) = some rule) :
    step policy source c = reduce policy c rule := by
  rw [step, h]

/-- A state that does not reduce by default acts on what it looks at. -/
theorem step_of_no_default {policy : ElementPolicy} {source : String} {c : Config}
    (h : Automaton.default? (topState c.stack) = none) :
    step policy source c = match c.look with
      | .ok (la, looked) => act policy source looked la
      | .error parsed => .done parsed := by
  obtain ⟨stack, lookahead, pushedBack, quiet, input, output⟩ := c
  dsimp only at h
  cases lookahead with
  | some la => simp only [step, h, Config.look]
  | none =>
      cases pushedBack with
      | cons la rest => simp only [step, h, Config.look]
      | nil =>
          simp only [step, h, Config.look]
          cases hNext : nextToken input output with
          | mk result left =>
              cases result with
              | ok la => simp only
              | error fault => simp only

/-- A state that does not act by itself acts on the token that it looks at. -/
theorem step_of_look_ok {policy : ElementPolicy} {source : String} {c looked : Config}
    {la : Lookahead} (h : Automaton.default? (topState c.stack) = none)
    (hLook : c.look = .ok (la, looked)) :
    step policy source c = act policy source looked la := by
  rw [step_of_no_default h, hLook]

theorem step_of_look_error {policy : ElementPolicy} {source : String} {c : Config} {parsed : Parsed}
    (h : Automaton.default? (topState c.stack) = none) (hLook : c.look = .error parsed) :
    step policy source c = .done parsed := by
  rw [step_of_no_default h, hLook]

/-- The rule that the next step applies, if it applies one. -/
def Config.rule? (c : Config) : Option Rule :=
  match Automaton.default? (topState c.stack) with
  | some rule => some rule
  | none =>
    match c.look with
    | .ok (la, _) =>
      match la.kind?.bind (Automaton.action? (topState c.stack)) with
      | some (.reduce rule) => some rule
      | _ => none
    | .error _ => none

theorem rule?_of_default {c : Config} {rule : Rule}
    (h : Automaton.default? (topState c.stack) = some rule) :
    c.rule? = some rule := by
  simp only [Config.rule?, h]

/-- Any other state applies the rule that the automaton has for the token. -/
theorem rule?_eq_some_iff_of_look {c looked : Config} {la : Lookahead} {rule : Rule}
    (h : Automaton.default? (topState c.stack) = none) (hLook : c.look = .ok (la, looked)) :
    c.rule? = some rule ↔ la.kind?.bind (Automaton.action? (topState c.stack)) =
      some (.reduce rule) := by
  simp only [Config.rule?, h, hLook]
  cases la.kind?.bind (Automaton.action? (topState c.stack)) with
  | none => simp
  | some action => cases action <;> simp

theorem rule?_of_look_error {c : Config} {parsed : Parsed}
    (h : Automaton.default? (topState c.stack) = none) (hLook : c.look = .error parsed) :
    c.rule? = none := by
  simp only [Config.rule?, h, hLook]

theorem look_stack {c looked : Config} {la : Lookahead} (h : c.look = .ok (la, looked)) :
    looked.stack = c.stack := by
  unfold Config.look at h
  split at h
  · cases h; rfl
  · cases h; rfl
  · split at h <;> cases h
    rfl

/-- The step applies that rule to the phrases on top of the stack. -/
theorem step_of_rule? (policy : ElementPolicy) (source : String) {c : Config} {rule : Rule}
    (h : c.rule? = some rule) :
    ∃ looked, looked.stack = c.stack ∧ step policy source c = reduce policy looked rule := by
  cases hDefault : Automaton.default? (topState c.stack) with
  | some rule' =>
      rw [rule?_of_default hDefault] at h
      cases h
      exact ⟨c, rfl, step_of_default hDefault⟩
  | none =>
      cases hLook : c.look with
      | ok seen =>
          obtain ⟨la, looked⟩ := seen
          have hAction := (rule?_eq_some_iff_of_look hDefault hLook).mp h
          refine ⟨looked, look_stack hLook, ?_⟩
          rw [step_of_look_ok hDefault hLook, act, look_stack hLook, hAction]
      | error parsed =>
          rw [rule?_of_look_error hDefault hLook] at h
          cases h

/-- The phrases that a rule joins. -/
def Config.parts (c : Config) (rule : Rule) : List Phrase :=
  (c.stack.take rule.size).reverse.map Frame.phrase

/-- The rule that the next step applies but that fails to build, and why. -/
def Config.failure? (policy : ElementPolicy) (c : Config) : Option (Rule × Fault) :=
  match c.rule? with
  | some rule =>
    match (Build.build policy rule (c.parts rule)).result with
    | .error fault => some (rule, fault)
    | .ok _ => none
  | none => none

/-- The next step fails to build exactly if it applies a rule that gives a
fault for the phrases on the stack. -/
theorem failure?_eq_some_iff {policy : ElementPolicy} {c : Config} {rule : Rule} {fault : Fault} :
    c.failure? policy = some (rule, fault) ↔
      c.rule? = some rule ∧ (Build.build policy rule (c.parts rule)).result = .error fault := by
  constructor
  · intro h
    unfold Config.failure? at h
    split at h
    · rename_i hRule
      split at h
      · rename_i hBuild
        cases h
        exact ⟨hRule, hBuild⟩
      · cases h
    · cases h
  · rintro ⟨hRule, hBuild⟩
    simp only [Config.failure?, hRule, hBuild]

/-- A rule that fails to build ends the parse, except for a syntactic
reason. -/
theorem step_of_failure? {policy : ElementPolicy} (source : String) {c : Config} {rule : Rule}
    {cause : Fault} (h : c.failure? policy = some (rule, cause))
    (hCause : ∀ m, cause ≠ .syntactic m) :
    ∃ out, step policy source c = .done ⟨.failed cause, out⟩ := by
  obtain ⟨hRule, hBuild⟩ := failure?_eq_some_iff.mp h
  obtain ⟨looked, hStack, hStep⟩ := step_of_rule? policy source hRule
  unfold Config.parts at hBuild
  rw [hStep, reduce, hStack]
  simp only [hBuild]
  exact ⟨_, rfl⟩

/-- The rules that fail to build within so many steps. -/
def failures (policy : ElementPolicy) (source : String) : Nat → Config → List (Rule × Fault)
  | 0, _ => []
  | steps + 1, c =>
    (c.failure? policy).toList ++ match step policy source c with
      | .next c => failures policy source steps c
      | .done _ => []

/-- The rules that fail to build during the parse of these lexemes. -/
def failuresOf (policy : ElementPolicy) (source : String) (input : List Lexeme) :
    List (Rule × Fault) :=
  failures policy source (stepBound input) (Config.start input)

/-- So many steps lead from the configuration to the other. -/
inductive Leads (policy : ElementPolicy) (source : String) (c : Config) :
    Nat → Config → Prop where
  | zero : Leads policy source c 0 c
  | succ {steps : Nat} {middle last : Config} (others : Leads policy source c steps middle)
      (next : step policy source middle = .next last) : Leads policy source c (steps + 1) last

theorem Leads.head {policy : ElementPolicy} {source : String} {c middle last : Config} {steps : Nat}
    (first : step policy source c = .next middle) (others : Leads policy source middle steps last) :
    Leads policy source c (steps + 1) last := by
  induction others with
  | zero => exact .succ .zero first
  | succ _ next ih => exact .succ ih next

/-- Steps from a configuration are none at all, or a first one and then
others. -/
theorem Leads.eq_or_head {policy : ElementPolicy} {source : String} {c last : Config} {steps : Nat}
    (h : Leads policy source c steps last) :
    (steps = 0 ∧ last = c) ∨ ∃ fewer middle, steps = fewer + 1 ∧
      step policy source c = .next middle ∧
      Leads policy source middle fewer last := by
  induction h with
  | zero => exact .inl ⟨rfl, rfl⟩
  | succ others next ih =>
      rcases ih with ⟨rfl, rfl⟩ | ⟨fewer, middle, rfl, hFirst, hOthers⟩
      · exact .inr ⟨0, _, rfl, next, .zero⟩
      · exact .inr ⟨fewer + 1, middle, rfl, hFirst, .succ hOthers next⟩

/-- A rule fails to build exactly where a configuration on the way says so. -/
theorem mem_failures_iff {policy : ElementPolicy} {source : String} {entry : Rule × Fault}
    {steps : Nat} {c : Config} : entry ∈ failures policy source steps c ↔
      ∃ n last, n < steps ∧ Leads policy source c n last ∧
        last.failure? policy = some entry := by
  induction steps generalizing c with
  | zero => simp [failures]
  | succ steps ih =>
      rw [failures, List.mem_append, Option.mem_toList]
      constructor
      · rintro (hHere | hLater)
        · exact ⟨0, c, Nat.succ_pos steps, .zero, hHere⟩
        · split at hLater
          · rename_i middle hStep
            obtain ⟨n, last, hLess, hLeads, hFailure⟩ := ih.mp hLater
            exact ⟨n + 1, last, Nat.succ_lt_succ hLess, .head hStep hLeads, hFailure⟩
          · cases hLater
      · rintro ⟨n, last, hLess, hLeads, hFailure⟩
        rcases hLeads.eq_or_head with ⟨rfl, rfl⟩ | ⟨fewer, middle, rfl, hStep, hOthers⟩
        · exact .inl hFailure
        · rw [hStep]
          exact .inr (ih.mpr ⟨fewer, last, Nat.lt_of_succ_lt_succ hLess, hOthers, hFailure⟩)

/-- After steps that lead somewhere, a run goes on from there. -/
theorem run_add {policy : ElementPolicy} {source : String} {c last : Config} {steps : Nat}
    (h : Leads policy source c steps last) (more : Nat) :
    run policy source (steps + more) c = run policy source more last := by
  induction h generalizing more with
  | zero => rw [Nat.zero_add]
  | @succ steps middle last _ next ih =>
      rw [Nat.add_right_comm, Nat.add_assoc, ih, run, next]

/-- A parse that ends within its bound has the outcome of its last step. -/
theorem parseLexemes_of_leads {policy : ElementPolicy} {source : String} {input : List Lexeme}
    {c : Config} {steps : Nat} (h : Leads policy source (Config.start input) steps c)
    (hBound : steps < stepBound input) {parsed : Parsed}
    (hDone : step policy source c = .done parsed) :
    parseLexemes policy source input = parsed := by
  obtain ⟨more, hMore⟩ := Nat.exists_eq_add_of_lt hBound
  rw [parseLexemes, hMore, Nat.add_assoc, run_add h, run, hDone]

end PageScript.Parse
