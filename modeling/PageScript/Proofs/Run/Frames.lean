import PageScript.Proofs.Table
import PageScript.Run.Machine

/-! What running a script can change in the frames. A block works in a frame of
its own, so a statement reaches no frame around its own one, and its own frame
only through the one name it sets there itself. -/
namespace PageScript.Run

/-- The name that a statement sets in the frame it runs in, if it sets one. -/
def writtenName? : Node → Option String
  | .declaration name _ _ _ => some name
  | .forStatement iterator _ _ => some iterator
  | _ => none

/-- A frame after any number of settings of one name, or untouched if there is
no such name. -/
def Rewritten (name? : Option String) (before after : Frame) : Prop :=
  match name? with
  | none => after = before
  | some name =>
    ∃ values : List Value, after = values.foldl (fun frame v => frame.set name v) before

theorem Rewritten.refl (name? : Option String) (frame : Frame) : Rewritten name? frame frame := by
  cases name? with
  | none => rfl
  | some name => exact ⟨[], rfl⟩

/-- A frame that was rewritten at one name has every other value as before. -/
theorem Rewritten.get?_eq {name? : Option String} {before after : Frame}
    (h : Rewritten name? before after) {other : String} (hOther : name? ≠ some other) :
    after.get? other = before.get? other := by
  cases name? with
  | none => rw [show after = before from h]
  | some name =>
      obtain ⟨values, rfl⟩ := h
      have hne : other ≠ name := fun he => hOther (he ▸ rfl)
      exact Table.get?_foldl_set_of_ne hne values before

/-- A part of a script keeps the frames around the one it runs in, however it
ends. -/
def KeepsOuter (part : Machine → Machine × Status) : Prop :=
  ∀ m frame outer, m.frames = frame :: outer → ∃ inner, (part m).1.frames = inner :: outer

/-- A part of a script keeps all frames, however it ends. -/
def KeepsFrames (part : Machine → Machine × Status) : Prop :=
  ∀ m, (part m).1.frames = m.frames

/-- The frame made for a block is all that the block can change. -/
theorem KeepsOuter.inside {body : Machine → Machine × Status} (hBody : KeepsOuter body) :
    KeepsFrames fun m => m.inside body := by
  intro m
  obtain ⟨inner, hInner⟩ := hBody { m with frames := .empty :: m.frames } .empty m.frames rfl
  simp [Machine.inside, hInner]

section repeatWhile

variable {condition : Machine → Except Fault Value} {body : Machine → Machine × Status}
  {m : Machine}

theorem repeatWhile_of_error {fault : Fault} (h : condition m = .error fault) (rounds : Nat) :
    repeatWhile condition body rounds m = (m, .failed fault) := by
  cases rounds <;> simp [repeatWhile, h]

theorem repeatWhile_of_falsy {value : Value} (h : condition m = .ok value)
    (hFalsy : value.truthy = false) (rounds : Nat) :
    repeatWhile condition body rounds m = (m, .done) := by
  cases rounds <;> simp [repeatWhile, h, hFalsy]

/-- A loop whose condition holds is still running when no round is left. -/
theorem repeatWhile_zero {value : Value} (h : condition m = .ok value)
    (hTruthy : value.truthy = true) : repeatWhile condition body 0 m = (m, .running) := by
  simp [repeatWhile, h, hTruthy]

/-- After a round that ends normally a loop goes on with one round less. -/
theorem repeatWhile_succ_of_done {value : Value} (h : condition m = .ok value)
    (hTruthy : value.truthy = true) {after : Machine} (hBody : body m = (after, .done))
    (rounds : Nat) :
    repeatWhile condition body (rounds + 1) m = repeatWhile condition body rounds after := by
  rw [repeatWhile]
  simp [h, hTruthy, hBody]

/-- A round that does not end normally ends the loop. -/
theorem repeatWhile_succ_of_stopped {value : Value} (h : condition m = .ok value)
    (hTruthy : value.truthy = true) (hBody : (body m).2 ≠ .done) (rounds : Nat) :
    repeatWhile condition body (rounds + 1) m = body m := by
  rw [repeatWhile]
  simp only [h, hTruthy, Bool.not_true, Bool.false_eq_true, if_false]
  split
  · rename_i hDone
    exact absurd (congrArg Prod.snd hDone) hBody
  · rfl

end repeatWhile

/-- A loop whose body keeps all frames keeps them. The induction is on the
rounds. -/
theorem KeepsFrames.repeatWhile {body : Machine → Machine × Status} (hBody : KeepsFrames body)
    (condition : Machine → Except Fault Value) (rounds : Nat) :
    KeepsFrames (Run.repeatWhile condition body rounds) := by
  induction rounds with
  | zero =>
      intro m
      cases hValue : condition m with
      | error fault => rw [repeatWhile_of_error hValue]
      | ok value =>
          cases hTruthy : value.truthy with
          | false => rw [repeatWhile_of_falsy hValue hTruthy]
          | true => rw [repeatWhile_zero hValue hTruthy]
  | succ rounds ih =>
      intro m
      have hRound := hBody m
      cases hValue : condition m with
      | error fault => rw [repeatWhile_of_error hValue]
      | ok value =>
          cases hTruthy : value.truthy with
          | false => rw [repeatWhile_of_falsy hValue hTruthy]
          | true =>
              by_cases hDone : (body m).2 = .done
              · have hPair : body m = ((body m).1, .done) := by rw [← hDone]
                rw [repeatWhile_succ_of_done hValue hTruthy hPair, ih, hRound]
              · rw [repeatWhile_succ_of_stopped hValue hTruthy hDone, hRound]

theorem Machine.assign_frames {m : Machine} {frame : Frame} {outer : List Frame}
    (h : m.frames = frame :: outer) (name : String) (value : Value) :
    (m.assign name value).frames = frame.set name value :: outer := by
  simp [Machine.assign, h]

/-- A loop over items sets its own name once for every item it reaches. -/
theorem KeepsFrames.forEach {body : Machine → Machine × Status} (hBody : KeepsFrames body)
    (name : String) (items : List Value) {m : Machine} {frame : Frame} {outer : List Frame}
    (h : m.frames = frame :: outer) :
    ∃ inner, (Run.forEach name body items m).1.frames = inner :: outer ∧
      Rewritten (some name) frame inner := by
  induction items generalizing m frame with
  | nil => exact ⟨frame, h, Rewritten.refl _ _⟩
  | cons item rest ih =>
      have hRound := (hBody (m.assign name item)).trans (Machine.assign_frames h name item)
      unfold Run.forEach
      split
      · rename_i after hAfter
        rw [hAfter] at hRound
        obtain ⟨inner, hInner, values, rfl⟩ := ih hRound
        exact ⟨_, hInner, item :: values, rfl⟩
      · exact ⟨_, hRound, [item], rfl⟩

/-- What one statement may do to the frames. -/
def WritesOnlyOwnName (rounds : Nat) (s : Node) : Prop :=
  ∀ m frame outer, m.frames = frame :: outer →
    ∃ inner, (execute rounds s m).1.frames = inner :: outer ∧
      Rewritten (writtenName? s) frame inner

section statements

variable {rounds : Nat}

-- The equations of `execute` are worked out here, once for all the statements below.
attribute [local simp] execute

theorem declaration_writes (name : String) (type : Option Ty) (value : Node) (constant : Bool) :
    WritesOnlyOwnName rounds (.declaration name type value constant) := by
  intro m frame outer h
  simp only [execute, writtenName?]
  split
  · rename_i v _
    exact ⟨frame.set name v, Machine.assign_frames h name v, [v], rfl⟩
  · exact ⟨frame, h, Rewritten.refl _ _⟩

/-- A conditional sets no name in its own frame, since its branches run in
frames of their own. A branch that is missing does nothing. -/
theorem ifStatement_writes (condition : Node) {thenBlock elseBlock : Node}
    (hThen : KeepsOuter (executeBlock rounds thenBlock))
    (hElse : KeepsOuter (executeBlock rounds elseBlock)) :
    WritesOnlyOwnName rounds (.ifStatement condition thenBlock elseBlock) := by
  intro m frame outer h
  refine ⟨frame, ?_, rfl⟩
  rw [← h]
  by_cases hMissing : elseBlock = .missing
  · subst elseBlock
    rw [execute]
    split
    · rfl
    · split
      · exact hThen.inside m
      · rfl
  · rw [execute]
    · split
      · rfl
      · split
        · exact hThen.inside m
        · exact hElse.inside m
    · exact hMissing

/-- A loop under a condition sets no name in its own frame. -/
theorem whileStatement_writes (condition : Node) {body : Node}
    (hBody : KeepsOuter (executeBlock rounds body)) :
    WritesOnlyOwnName rounds (.whileStatement condition body) := by
  intro m frame outer h
  refine ⟨frame, ?_, rfl⟩
  rw [← h, execute]
  exact hBody.inside.repeatWhile _ rounds m

/-- A loop over items sets its own name, once for each item. -/
theorem forStatement_writes (iterator : String) (iterable : Node) {body : Node}
    (hBody : KeepsOuter (executeBlock rounds body)) :
    WritesOnlyOwnName rounds (.forStatement iterator iterable body) := by
  intro m frame outer h
  simp only [execute, writtenName?]
  split
  · exact ⟨frame, h, Rewritten.refl _ _⟩
  split
  · exact ⟨frame, h, Rewritten.refl _ _⟩
  · exact hBody.inside.forEach iterator _ h

/-- A statement that holds no block and sets no name leaves the frames
alone. -/
theorem writes_of_frames_eq {s : Node} (h : KeepsFrames (execute rounds s)) :
    WritesOnlyOwnName rounds s := by
  intro m frame outer hFrames
  exact ⟨frame, (h m).trans hFrames, Rewritten.refl _ _⟩

/-- Statements keep the frames around theirs, if the first one does and the
others do. -/
theorem executeAll_keepsOuter_cons {s : Node} {rest : List Node}
    (hFirst : WritesOnlyOwnName rounds s) (hRest : KeepsOuter (executeAll rounds rest)) :
    KeepsOuter (executeAll rounds (s :: rest)) := by
  intro m frame outer h
  obtain ⟨inner, hInner, -⟩ := hFirst m frame outer h
  simp only [executeAll]
  split
  · rename_i after hAfter
    rw [hAfter] at hInner
    exact hRest after inner outer hInner
  · exact ⟨inner, hInner⟩

end statements

mutual

/-- Every statement keeps the frames around its own one, whatever blocks and
loops it is made of. -/
theorem execute_writes (rounds : Nat) (s : Node) : WritesOnlyOwnName rounds s := by
  cases s with
  | declaration name type value constant => exact declaration_writes name type value constant
  | ifStatement condition thenBlock elseBlock =>
      exact ifStatement_writes condition (executeBlock_keepsOuter rounds thenBlock)
        (executeBlock_keepsOuter rounds elseBlock)
  | whileStatement condition body =>
      exact whileStatement_writes condition (executeBlock_keepsOuter rounds body)
  | forStatement iterator iterable body =>
      exact forStatement_writes iterator iterable (executeBlock_keepsOuter rounds body)
  | returnStatement value =>
      refine writes_of_frames_eq fun m => ?_
      cases value <;> simp only [execute] <;> split <;> rfl
  | _ =>
      refine writes_of_frames_eq fun m => ?_
      simp only [execute]
      try split
      all_goals rfl

/-- A block keeps the frames around its own. -/
theorem executeBlock_keepsOuter (rounds : Nat) (block : Node) :
    KeepsOuter (executeBlock rounds block) := by
  cases block with
  | block statements =>
      intro m frame outer h
      simp only [executeBlock]
      exact executeAll_keepsOuter rounds statements m frame outer h
  | program statements =>
      intro m frame outer h
      simp only [executeBlock]
      exact executeAll_keepsOuter rounds statements m frame outer h
  | _ =>
      intro m frame outer h
      exact ⟨frame, by simpa only [executeBlock] using h⟩

theorem executeAll_keepsOuter (rounds : Nat) (statements : List Node) :
    KeepsOuter (executeAll rounds statements) := by
  cases statements with
  | nil =>
      intro m frame outer h
      exact ⟨frame, by simpa only [executeAll] using h⟩
  | cons s rest =>
      exact executeAll_keepsOuter_cons (execute_writes rounds s) (executeAll_keepsOuter rounds rest)

end

/-- Running a statement in a chain of frames leaves every frame but the
innermost as it was, whether the statement ends normally or not. The innermost
frame changes only by settings of the name that a declaration or a loop over
items carries; any other statement leaves it alone. -/
theorem execute_scoping (rounds : Nat) (s : Node) (frame : Frame) (outer : List Frame)
    (functions : Table Node) (output errors : String) :
    ∃ inner, (execute rounds s ⟨frame :: outer, functions, output, errors⟩).1.frames =
      inner :: outer ∧
      Rewritten (writtenName? s) frame inner ∧
      ∀ other, writtenName? s ≠ some other → inner.get? other = frame.get? other := by
  obtain ⟨inner, hFrames, hInner⟩ :=
    execute_writes rounds s ⟨frame :: outer, functions, output, errors⟩ frame outer rfl
  exact ⟨inner, hFrames, hInner, fun other hOther => hInner.get?_eq hOther⟩

end PageScript.Run
