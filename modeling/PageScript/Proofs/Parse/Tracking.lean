import PageScript.Proofs.Automaton.Completeness
import PageScript.Proofs.Grammar.Value
import PageScript.Proofs.Parse.Mirror

/-! Whole parses beside whole runs of the automaton. A parse tracks the
automaton from the start until it stops, which it does within its bound on
steps. If a rule fails to build, then the derivation it would make is part of
no derivation that has a value. -/
namespace PageScript.Parse

open Automaton PageScript.Derivation
open Lexer (Lexeme collect)

/-- After so many steps, the parse of these lexemes mirrors the automaton's run
over their tokens. -/
structure Tracks (policy : ElementPolicy) (source : String) (input : List Lexeme) (steps : Nat)
    (c : Config) (g : Growth) : Prop where
  leads : Leads policy source (Config.start input) steps c
  runs : Growth.Runs steps (Growth.start (collect input).tokens) g
  mirrors : Mirrors policy (collect input).fault c g

theorem length_collect_le (input : List Lexeme) :
    (collect input).tokens.length ≤ input.length := by
  induction input with
  | nil => exact Nat.le_refl 0
  | cons first rest ih =>
      cases first with
      | token t => exact Nat.succ_le_succ ih
      | stray _ _ _ => exact Nat.le_succ_of_le ih
      | overlong _ => exact Nat.zero_le _

section tracking

variable {policy : ElementPolicy} {source : String} {input : List Lexeme} {steps : Nat} {c : Config}
    {g : Growth}

theorem tracks_start (policy : ElementPolicy) (source : String) (input : List Lexeme) :
    Tracks policy source input 0 (Config.start input) (Growth.start (collect input).tokens) :=
  ⟨.zero, .zero _, mirrors_start policy input⟩

theorem Tracks.linked (h : Tracks policy source input steps c g) : Linked g.spine :=
  (h.runs.sound .nil).1

theorem Tracks.tokens_eq (h : Tracks policy source input steps c g) :
    Spine.tokens g.spine ++ g.rest = (collect input).tokens :=
  (h.runs.sound .nil).2.1

/-- A tracked run stays within the bound on steps, since its tokens pay for its
rules. -/
theorem Tracks.lt_stepBound (h : Tracks policy source input steps c g) :
    steps < stepBound input := by
  have hSteps := h.runs.steps_le
  have hLength := length_collect_le input
  rw [GrammarSymbol.tokenPay] at hSteps
  rw [stepBound]
  omega

/-- A parse that tracks the automaton moves with it, or both stop, or a rule
fails to build. -/
theorem Tracks.moves (h : Tracks policy source input steps c g)
    (hTokens : ∀ t ∈ (collect input).tokens, t.Scanned) :
    Moves policy source (collect input).fault c g := by
  refine h.mirrors.moves h.linked fun t ht => (hTokens t ?_).ne_endOfInput
  rw [← h.tokens_eq]
  exact List.mem_append_right _ ht

/-- Every parse tracks the automaton until it stops. The automaton's bound on
its own steps is what ends the induction. -/
theorem exists_stops (policy : ElementPolicy) (source : String)
    (hTokens : ∀ t ∈ (collect input).tokens, t.Scanned) :
    ∃ steps c g, Tracks policy source input steps c g ∧
      Stops policy source (collect input).fault c g := by
  have hLeft : ∀ left steps c g, Tracks policy source input steps c g →
      GrammarSymbol.tokenPay * (collect input).tokens.length + 2 < steps + left →
      ∃ steps c g, Tracks policy source input steps c g ∧
        Stops policy source (collect input).fault c g := by
    intro left
    induction left with
    | zero =>
        intro steps c g h hBound
        exact absurd h.runs.steps_le (Nat.not_le_of_lt hBound)
    | succ left ih =>
        intro steps c g h hBound
        cases h.moves hTokens with
        | grows grow step_eq mirrors =>
            exact ih (steps + 1) _ _ ⟨.succ h.leads step_eq, h.runs.trans (.one grow), mirrors⟩
              (by omega)
        | stops stop => exact ⟨steps, c, g, h, stop⟩
  exact hLeft _ 0 _ _ (tracks_start policy source input)
    (by rw [Nat.zero_add]; exact Nat.lt_succ_self _)

/-- If a rule fails to build on the way, then one of them fails while the parse
still tracks the automaton. -/
theorem exists_tracks_failure (hTokens : ∀ t ∈ (collect input).tokens, t.Scanned)
    (hLeads : Leads policy source (Config.start input) steps c) {entry : Rule × Fault}
    (hFailure : c.failure? policy = some entry) :
    ∃ steps c g entry, Tracks policy source input steps c g ∧
      c.failure? policy = some entry := by
  have hReached : (∃ g, Tracks policy source input steps c g) ∨
      ∃ steps c g entry, Tracks policy source input steps c g ∧
        c.failure? policy = some entry := by
    clear hFailure
    induction hLeads with
    | zero => exact .inl ⟨_, tracks_start policy source input⟩
    | succ others next ih =>
        rcases ih with ⟨g, h⟩ | hEarlier
        · cases h.moves hTokens with
          | grows grow step_eq mirrors =>
              rw [next] at step_eq
              cases step_eq
              exact .inl ⟨_, .succ others next, h.runs.trans (.one grow), mirrors⟩
          | stops stop =>
              cases stop with
              | raises failure => exact .inr ⟨_, _, _, _, h, failure⟩
              | accepts _ _ _ _ _ ends => rw [next] at ends; cases ends
              | misfits _ ends => rw [next] at ends; cases ends
              | breaks _ ends => rw [next] at ends; cases ends
        · exact .inr hEarlier
  rcases hReached with ⟨g, h⟩ | hEarlier
  · exact ⟨steps, c, g, entry, h, hFailure⟩
  · exact hEarlier

/-- All derivations of a spine have values. -/
def Valued (policy : ElementPolicy) (spine : Spine) : Prop :=
  ∀ entry ∈ spine, ∃ p, entry.2.value policy = .ok p

theorem Valued.of_parts {upper : Spine} {phrases : List Phrase}
    (h : values policy (Spine.parts upper) = .ok phrases) :
    Valued policy upper :=
  fun _ hEntry => exists_value_of_mem h (List.mem_map_of_mem (List.mem_reverse.mpr hEntry))

/-- A derivation that has no value never becomes part of one that has. -/
theorem Valued.of_step {next : Growth} (hStep : Growth.Step g next) (h : Valued policy next.spine) :
    Valued policy g.spine := by
  cases hStep with
  | shift _ => exact fun entry hEntry => h entry (.tail _ hEntry)
  | @reduce _ rule state _ _ =>
      obtain ⟨p, hNode⟩ := h _ (.head _)
      obtain ⟨phrases, hParts, -⟩ := value_node_inv hNode
      intro entry hEntry
      rw [← List.take_append_drop rule.size g.spine, List.mem_append] at hEntry
      rcases hEntry with hUpper | hBelow
      · exact Valued.of_parts hParts entry hUpper
      · exact h entry (.tail _ hBelow)

/-- If the spine at the end of a run has values, so had every spine before it:
a derivation that has a value is made of such. -/
theorem Valued.of_runs {last : Growth} (hRuns : Growth.Runs steps g last)
    (h : Valued policy last.spine) :
    Valued policy g.spine := by
  induction hRuns with
  | zero => exact h
  | succ first _ ih => exact .of_step first (ih h)

/-- While the automaton is on its way to an end where all derivations have
values, no rule fails to build. -/
theorem Tracks.failure?_ne_some_of_valued (h : Tracks policy source input steps c g)
    {last : Growth} {n : Nat} (hRuns : Growth.Runs n (Growth.start (collect input).tokens) last)
    (hEnded : last.Ended) (hValued : Valued policy last.spine) (entry : Rule × Fault) :
    c.failure? policy ≠ some entry := by
  intro hFailure
  obtain ⟨rule, cause⟩ := entry
  obtain ⟨hRule, hBuild⟩ := failure?_eq_some_iff.mp hFailure
  have hDecision := h.mirrors.decision_of_rule? hRule
  obtain ⟨-, state, hLeads⟩ := h.linked.reduction hDecision
  have hNext := h.runs.trans (.one (.reduce hDecision hLeads))
  obtain ⟨k, hOn⟩ := hNext.extend hRuns hEnded
  have hReduced : Valued policy (g.reduced rule state).spine := .of_runs hOn hValued
  obtain ⟨q, hNode⟩ := hReduced _ (.head _)
  rw [value_node_ok (h.mirrors.values_eq rule), hBuild] at hNode
  cases hNode

/-- While the automaton is on its way to a derivation with a value, no rule
fails to build. -/
theorem Tracks.failure?_ne_some (h : Tracks policy source input steps c g)
    {d : Derivation} {n : Nat}
    (hRuns : Growth.Runs n (Growth.start (collect input).tokens) (Growth.finished d)) {p : Phrase}
    (hValue : d.value policy = .ok p) (entry : Rule × Fault) :
    c.failure? policy ≠ some entry := by
  refine h.failure?_ne_some_of_valued hRuns (.inr (Growth.decision_finished d))
    (fun entry hEntry => ?_) entry
  cases List.mem_singleton.mp hEntry
  exact ⟨p, hValue⟩

/-- No rule fails to build in the parse of a program without elements that has
a value. -/
theorem failuresOf_eq_nil_of_derives (hTokens : ∀ t ∈ (collect input).tokens, t.Scanned)
    {d : Derivation} (hDerives : d.Derives (.n .program) (collect input).tokens)
    (hFree : d.ElementFree) {p : Phrase} (hValue : d.value policy = .ok p) :
    failuresOf policy source input = [] := by
  rw [List.eq_nil_iff_forall_not_mem]
  intro entry hEntry
  obtain ⟨n, last, -, hLeads, hFailure⟩ := mem_failures_iff.mp hEntry
  obtain ⟨m, c, g, failed, hTracks, hFailed⟩ := exists_tracks_failure hTokens hLeads hFailure
  exact hTracks.failure?_ne_some (Growth.runs_finished hDerives hFree) hValue failed hFailed

/-- A rule that fails to build while the parse tracks the automaton is among
the failures of the parse. -/
theorem Tracks.mem_failuresOf (h : Tracks policy source input steps c g) {entry : Rule × Fault}
    (hFailure : c.failure? policy = some entry) : entry ∈ failuresOf policy source input :=
  mem_failures_iff.mpr ⟨steps, c, h.lt_stepBound, h.leads, hFailure⟩

end tracking

end PageScript.Parse
