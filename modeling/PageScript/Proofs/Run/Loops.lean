import PageScript.Proofs.Run.Frames

/-! Loops under a condition. The body of such a loop works in a frame of its
own, and the condition is read in the frames around it, which the body cannot
reach. So a condition that holds once holds before every round, and only a
fault in the body can end the loop. -/
namespace PageScript.Run

/-- This many rounds of a body, one after the other and each ending normally,
lead from one machine to the other. -/
inductive Rounds (body : Machine → Machine × Status) : Nat → Machine → Machine → Prop where
  | zero (m : Machine) : Rounds body 0 m m
  | succ {count : Nat} {m middle last : Machine}
      (first : body m = (middle, .done)) (others : Rounds body count middle last) :
      Rounds body (count + 1) m last

/-- One round of a loop: its body, run as a block. -/
def loopRound (rounds : Nat) (body : Node) (m : Machine) : Machine × Status :=
  m.inside fun m => executeBlock rounds body m

theorem loopRound_keepsFrames (rounds : Nat) (body : Node) : KeepsFrames (loopRound rounds body) :=
  (executeBlock_keepsOuter rounds body).inside

theorem execute_whileStatement (rounds : Nat) (condition body : Node) (m : Machine) :
    execute rounds (.whileStatement condition body) m =
      repeatWhile (fun m => evaluate m.frames condition) (loopRound rounds body) rounds m := by
  rw [execute]
  rfl

/-- A loop that may take `allowed` more rounds is in one of two situations: it
has taken them all and its condition holds as before, or some round did not end
normally, and the loop ends as that round does. -/
inductive LoopsOn (condition : Machine → Except Fault Value)
    (body : Machine → Machine × Status) (value : Value) (allowed : Nat) (m : Machine) :
    Machine × Status → Prop where
  | looping {last : Machine} (all : Rounds body allowed m last)
      (holds : condition last = .ok value) :
      LoopsOn condition body value allowed m (last, .running)
  | stopped {count : Nat} {last : Machine} (early : count < allowed)
      (before : Rounds body count m last)
      (abrupt : (body last).2 ≠ .done) : LoopsOn condition body value allowed m (body last)

section loops

variable {condition : Machine → Except Fault Value} {body : Machine → Machine × Status}
  {value : Value}

/-- A loop whose condition holds never ends normally. -/
theorem LoopsOn.not_done {allowed : Nat} {m : Machine} {result : Machine × Status}
    (h : LoopsOn condition body value allowed m result) : result.2 ≠ .done := by
  cases h with
  | looping => exact Status.noConfusion
  | stopped _ _ abrupt => exact abrupt

/-- One more round in front of a loop. -/
theorem LoopsOn.after_round {allowed : Nat} {m middle : Machine} {result : Machine × Status}
    (first : body m = (middle, .done)) (h : LoopsOn condition body value allowed middle result) :
    LoopsOn condition body value (allowed + 1) m result := by
  cases h with
  | looping all holds => exact .looping (.succ first all) holds
  | stopped early before abrupt =>
      exact .stopped (Nat.succ_lt_succ early) (.succ first before) abrupt

/-- A condition that only reads the frames has the same value before each
round, so the loop goes on. The induction is on the rounds still allowed. -/
theorem repeatWhile_loopsOn (hBody : KeepsFrames body)
    (hReads : ∀ m n : Machine, m.frames = n.frames → condition m = condition n)
    (hTruthy : value.truthy = true) (allowed : Nat) {m : Machine}
    (hValue : condition m = .ok value) :
    LoopsOn condition body value allowed m (repeatWhile condition body allowed m) := by
  induction allowed generalizing m with
  | zero =>
      rw [repeatWhile_zero hValue hTruthy]
      exact .looping (.zero m) hValue
  | succ allowed ih =>
      by_cases hDone : (body m).2 = .done
      · have hRound : body m = ((body m).1, .done) := by rw [← hDone]
        have hNext : condition (body m).1 = .ok value := by rw [hReads _ m (hBody m), hValue]
        rw [repeatWhile_succ_of_done hValue hTruthy hRound]
        exact (ih hNext).after_round hRound
      · rw [repeatWhile_succ_of_stopped hValue hTruthy hDone]
        exact .stopped (Nat.zero_lt_succ _) (.zero m) hDone

end loops

/-- A loop whose condition is false ends at once and changes nothing. A loop
whose condition is true never ends normally, whatever its body does: for every
number of rounds it has either taken them all, and its condition still has the
same value, or its body was left in some round and the loop with it. -/
theorem whileStatement_dichotomy (rounds : Nat) (condition body : Node) (m : Machine)
    (value : Value) (hValue : evaluate m.frames condition = .ok value) :
    (value.truthy = false → execute rounds (.whileStatement condition body) m = (m, .done)) ∧
    (value.truthy = true →
      (execute rounds (.whileStatement condition body) m).2 ≠ .done ∧
      LoopsOn (fun m => evaluate m.frames condition) (loopRound rounds body) value rounds m
        (execute rounds (.whileStatement condition body) m)) := by
  let holds : Machine → Except Fault Value := fun m => evaluate m.frames condition
  have hHolds : holds m = .ok value := hValue
  have hReads : ∀ m n : Machine, m.frames = n.frames → holds m = holds n := by
    intro m n hFrames
    change evaluate m.frames condition = evaluate n.frames condition
    rw [hFrames]
  rw [execute_whileStatement]
  constructor
  · intro hFalsy
    exact repeatWhile_of_falsy hHolds hFalsy rounds
  · intro hTruthy
    have hLoop :=
      repeatWhile_loopsOn (loopRound_keepsFrames rounds body) hReads hTruthy rounds hHolds
    exact ⟨hLoop.not_done, hLoop⟩

/-- A loop that counts down never reaches zero: the declaration in its body
makes a new variable in each round. -/
theorem whileStatement_dichotomy_countdown :
    let condition : Node := .identifier "count"
    let body : Node :=
      .block [.declaration "count" none (.binary condition "-" (.number (.int 1))) false]
    let m : Machine := ⟨[⟨[("count", .int 2)]⟩], .empty, "", ""⟩
    evaluate m.frames condition = .ok (.int 2) ∧
      (execute 7 (.whileStatement condition body) m).2 ≠ .done := by
  intro condition body m
  have hValue : evaluate m.frames condition = .ok (.int 2) := by
    simp [m, condition, evaluate, findInChain, Table.get?]
  exact ⟨hValue, ((whileStatement_dichotomy 7 condition body m (.int 2) hValue).2 rfl).1⟩

end PageScript.Run
