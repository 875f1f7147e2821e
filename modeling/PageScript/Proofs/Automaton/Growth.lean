import PageScript.Proofs.Automaton.Table
import PageScript.Proofs.Grammar.Derivation

/-! The automaton at work on derivations. It keeps a spine: the states it has
reached, each with the derivation that led there. A shift adds a token to the
spine, and a reduction replaces the derivations on top of it by one. Nothing is
built here, so no rule can refuse. -/
namespace PageScript.Automaton

open PageScript.Derivation

/-- States with the derivations that led to them, the top first. -/
abbrev Spine := List (Nat × Derivation)

/-- The state on top of a spine; the bottom state is zero. -/
def topOf : Spine → Nat
  | [] => 0
  | (state, _) :: _ => state

namespace Spine

/-- The tokens that a spine covers. -/
def tokens : Spine → List Token
  | [] => []
  | (_, d) :: below => tokens below ++ d.tokens

/-- How many tokens and rules a spine has together. -/
def size : Spine → Nat
  | [] => 0
  | (_, d) :: below => size below + d.size

/-- The derivations of some upper part of a spine, from left to right. -/
def parts (upper : Spine) : List Derivation :=
  upper.reverse.map Prod.snd

theorem parts_cons (state : Nat) (d : Derivation) (upper : Spine) :
    parts ((state, d) :: upper) = parts upper ++ [d] := by
  simp [parts]

/-- The derivations on a spine are read from its bottom, so those of the lower
part come first. -/
theorem parts_append (upper below : Spine) :
    parts (upper ++ below) = parts below ++ parts upper := by
  simp [parts]

/-- The tokens of a spine are those of its lower part and then those of the
derivations above it. -/
theorem tokens_append (upper below : Spine) :
    tokens (upper ++ below) = tokens below ++ tokensAll (parts upper) := by
  induction upper with
  | nil => simp [parts, tokensAll]
  | cons frame rest ih =>
      obtain ⟨state, d⟩ := frame
      rw [List.cons_append, tokens, ih, parts_cons, tokensAll_append]
      simp [tokensAll]

/-- A spine has the size of its lower part and of the derivations above it. -/
theorem size_append (upper below : Spine) :
    size (upper ++ below) = size below + sizeAll (parts upper) := by
  induction upper with
  | nil => simp [parts, sizeAll]
  | cons frame rest ih =>
      obtain ⟨state, d⟩ := frame
      rw [List.cons_append, size, ih, parts_cons, sizeAll_append]
      simp only [sizeAll]
      omega

end Spine

/-- Each state of the spine is reached from the one below it by the symbol of
its derivation. -/
inductive Linked : Spine → Prop where
  | nil : Linked []
  | cons {state : Nat} {d : Derivation} {below : Spine}
      (edge : target? (topOf below) d.symbol = some state) (valid : d.Valid)
      (linked : Linked below) :
      Linked ((state, d) :: below)

/-- The lower part of a linked spine is linked, since each state rests on those
below it. -/
theorem Linked.append_right {upper below : Spine} (h : Linked (upper ++ below)) : Linked below := by
  induction upper with
  | nil => exact h
  | cons frame rest ih =>
      cases h with
      | cons _ _ linked => exact ih linked

theorem Linked.valid_of_mem {spine : Spine} (h : Linked spine) {frame : Nat × Derivation}
    (hFrame : frame ∈ spine) : frame.2.Valid := by
  induction h with
  | nil => cases hFrame
  | cons _ valid _ ih =>
      rcases List.mem_cons.mp hFrame with rfl | hBelow
      · exact valid
      · exact ih hBelow

/-- A parse under way: the spine, and the tokens still to be read. -/
structure Growth where
  spine : Spine
  rest : List Token

namespace Growth

/-- Nothing has been read yet. -/
def start (tokens : List Token) : Growth := ⟨[], tokens⟩

/-- The end: the whole input has become one derivation. -/
def finished (d : Derivation) : Growth := ⟨[(programState, d)], []⟩

/-- What the automaton does next. -/
def decision (g : Growth) : Option Action :=
  Automaton.decision (topOf g.spine) (headKind g.rest)

/-- The growth after a reduction. -/
def reduced (g : Growth) (rule : Rule) (state : Nat) : Growth :=
  ⟨(state, .node rule (Spine.parts (g.spine.take rule.size))) :: g.spine.drop rule.size, g.rest⟩

/-- One step. The automaton stops when it accepts, or when it has nothing to
do. -/
inductive Step : Growth → Growth → Prop where
  | shift {spine : Spine} {t : Token} {rest : List Token} {state : Nat}
      (shifts : Automaton.decision (topOf spine) t.kind = some (.shift state)) :
      Step ⟨spine, t :: rest⟩ ⟨(state, .leaf t) :: spine, rest⟩
  | reduce {g : Growth} {rule : Rule} {state : Nat} (reduces : g.decision = some (.reduce rule))
      (leads : target? (topOf (g.spine.drop rule.size)) (.n rule.production.phrase) = some state) :
      Step g (g.reduced rule state)

/-- Exactly this many steps lead from one growth to the other. -/
inductive Runs : Nat → Growth → Growth → Prop where
  | zero (g : Growth) : Runs 0 g g
  | succ {steps : Nat} {g middle last : Growth} (first : Step g middle)
      (others : Runs steps middle last) :
      Runs (steps + 1) g last

theorem Runs.one {g last : Growth} (h : Step g last) : Runs 1 g last :=
  .succ h (.zero last)

/-- Runs that follow one another are one run, and their steps add up. -/
theorem Runs.trans {m n : Nat} {g middle last : Growth} (left : Runs m g middle)
    (right : Runs n middle last) : Runs (m + n) g last := by
  induction left with
  | zero => simpa using right
  | succ first _ ih =>
      rw [Nat.succ_add]
      exact .succ first (ih right)

/-- The next step is determined. A state that shifts a token does not reduce
before it, and a rule leads to one state only. -/
theorem Step.unique {g left right : Growth} (hLeft : Step g left) (hRight : Step g right) :
    left = right := by
  cases hLeft with
  | shift shifts =>
      cases hRight with
      | shift shifts' =>
          rw [shifts] at shifts'
          cases shifts'
          rfl
      | reduce reduces _ =>
          rw [decision] at reduces
          simp only [headKind] at reduces
          rw [shifts] at reduces
          cases reduces
  | reduce reduces leads =>
      cases hRight with
      | shift shifts =>
          rw [decision] at reduces
          simp only [headKind] at reduces
          rw [shifts] at reduces
          cases reduces
      | reduce reduces' leads' =>
          rw [reduces] at reduces'
          cases reduces'
          rw [leads] at leads'
          cases leads'
          rfl

/-- A step shifts or reduces. -/
theorem Step.decision_eq {g next : Growth} (h : Step g next) :
    (∃ state, g.decision = some (.shift state)) ∨ ∃ rule,
      g.decision = some (.reduce rule) := by
  cases h with
  | shift shifts => exact .inl ⟨_, shifts⟩
  | reduce reduces _ => exact .inr ⟨_, reduces⟩

/-- The automaton has nothing to do, or accepts. -/
def Ended (g : Growth) : Prop :=
  g.decision = none ∨ g.decision = some .accept

theorem Ended.not_step {g : Growth} (h : g.Ended) (next : Growth) : ¬ Step g next := by
  intro hStep
  rcases h with h | h <;> rcases hStep.decision_eq with ⟨_, h'⟩ |
    ⟨_, h'⟩ <;> rw [h] at h' <;> cases h'

/-- Every run leads on to where the automaton ends. -/
theorem Runs.extend {m n : Nat} {g left right : Growth} (hLeft : Runs m g left)
    (hRight : Runs n g right) (hEnded : right.Ended) : ∃ k, Runs k left right := by
  induction hLeft generalizing n with
  | zero => exact ⟨n, hRight⟩
  | succ first _ ih =>
      cases hRight with
      | zero => exact absurd first (hEnded.not_step _)
      | succ first' others' =>
          cases Step.unique first first'
          exact ih others'

/-- The automaton ends in one place. -/
theorem Runs.unique {m n : Nat} {g left right : Growth} (hLeft : Runs m g left)
    (hRight : Runs n g right) (endedLeft : left.Ended) (endedRight : right.Ended) :
    left = right := by
  obtain ⟨k, hRuns⟩ := hLeft.extend hRight endedRight
  cases hRuns with
  | zero => rfl
  | succ first _ => exact absurd first (endedLeft.not_step _)

end Growth

end PageScript.Automaton
