import PageScript.Proofs.Run.Readings

/-! Two runs of one script. What a run prints and how it ends depends on the
values of the names it reads, and on nothing else in the machine: not on what
was printed before, on the functions declared so far or on other variables.
Main statement: two machines whose frames agree on the names that a script
reads run it side by side. -/
namespace PageScript.Run

/-- Two chains of frames bind these names alike, frame by frame. -/
inductive SameOn (seen : String → Prop) : List Frame → List Frame → Prop where
  | nil : SameOn seen [] []
  | cons {frame other : Frame} {outer others : List Frame}
      (first : ∀ name, seen name → frame.get? name = other.get? name)
      (rest : SameOn seen outer others) :
      SameOn seen (frame :: outer) (other :: others)

section frames

variable {seen : String → Prop} {frames others : List Frame}

theorem SameOn.refl (frames : List Frame) : SameOn seen frames frames := by
  induction frames with
  | nil => exact .nil
  | cons frame outer ih => exact .cons (fun _ _ => rfl) ih

theorem SameOn.in_block (h : SameOn seen frames others) :
    SameOn seen (.empty :: frames) (.empty :: others) :=
  .cons (fun _ _ => rfl) h

theorem SameOn.after_block (h : SameOn seen frames others) :
    SameOn seen (frames.drop 1) (others.drop 1) := by
  cases h with
  | nil => exact .nil
  | cons _ rest => exact rest

theorem SameOn.findInChain_eq (h : SameOn seen frames others) {name : String} (hName : seen name) :
    findInChain frames name = findInChain others name := by
  induction h with
  | nil => rfl
  | cons first _ ih => rw [findInChain_cons, findInChain_cons, first name hName, ih]

/-- Setting a name to one value on both sides keeps the agreement, whether the
name is among those that count or not. -/
theorem SameOn.assign {m n : Machine} (h : SameOn seen m.frames n.frames) (name : String)
    (value : Value) :
    SameOn seen (m.assign name value).frames (n.assign name value).frames := by
  obtain ⟨frames, functions, output, errors⟩ := m
  obtain ⟨others, functions', output', errors'⟩ := n
  cases h with
  | nil => exact .refl _
  | @cons frame other outer others first rest =>
      refine .cons (fun key hKey => ?_) rest
      by_cases hSame : key = name
      · rw [hSame, Table.get?_set_self, Table.get?_set_self]
      · rw [Table.get?_set_of_ne frame hSame, Table.get?_set_of_ne other hSame]
        exact first key hKey

/-- An expression has the same value in chains that agree on the names it looks
up, or the same fault. -/
theorem evaluate_of_sameOn (h : SameOn seen frames others) (e : Node)
    (hReads : ∀ name ∈ lookups e, seen name) :
    evaluate frames e = evaluate others e := by
  cases e with
  | identifier name =>
      rw [evaluate, evaluate, h.findInChain_eq (hReads name (.head _))]
  | binary left operator right =>
      simp only [lookups, List.forall_mem_append] at hReads
      rw [evaluate, evaluate, evaluate_of_sameOn h left hReads.1,
        evaluate_of_sameOn h right hReads.2]
  | _ => rfl

end frames

/-- All names that are read at these places are among those that count. -/
def ReadsWithin (seen : String → Prop) (places : List Reading) : Prop :=
  ∀ r ∈ places, seen r.name

section places

variable {seen : String → Prop} {frames others : List Frame} {visible earlier : List String}

theorem readsWithin_append {front back : List Reading} :
    ReadsWithin seen (front ++ back) ↔ ReadsWithin seen front ∧ ReadsWithin seen back :=
  List.forall_mem_append

/-- An expression whose places read within the names that count has the same
value in both chains. -/
theorem evaluate_of_readsWithin (h : SameOn seen frames others) {e : Node}
    (hReads : ReadsWithin seen (readingsOf visible earlier e)) :
    evaluate frames e = evaluate others e := by
  apply evaluate_of_sameOn h
  intro name hName
  exact hReads ⟨name, visible, earlier⟩ (List.mem_map.mpr ⟨name, hName, rfl⟩)

/-- Content whose places read within the names that count has the same source
in both chains. -/
theorem contentSource_of_readsWithin (h : SameOn seen frames others) {content : List Node}
    (hReads : ReadsWithin seen (content.flatMap (contentReadings visible earlier))) :
    contentSource frames content = contentSource others content := by
  induction content with
  | nil => rfl
  | cons item rest ih =>
      rw [List.flatMap_cons, readsWithin_append] at hReads
      have hRest := ih hReads.2
      cases item with
      | showStatement value =>
          have hValue := evaluate_of_readsWithin h hReads.1
          rw [contentSource, contentSource, hValue, hRest]
      | declaration name type value constant =>
          have hValue := evaluate_of_readsWithin h hReads.1
          rw [contentSource, contentSource, hValue, hRest]
      | _ => rfl

end places

/-! ### Runs side by side -/

/-- From two machines, these two outcomes have been reached side by side: the
frames agree, the same has been printed and reported on the way, and the runs
ended in the same way. -/
structure Parallel (seen : String → Prop) (m n : Machine) (result other : Machine × Status) :
    Prop where
  status_eq : result.2 = other.2
  frames : SameOn seen result.1.frames other.1.frames
  printed : ∃ text, result.1.output = m.output ++ text ∧ other.1.output = n.output ++ text
  reported : ∃ text, result.1.errors = m.errors ++ text ∧ other.1.errors = n.errors ++ text

/-- Machines whose frames agree run this part side by side. -/
def Uniform (seen : String → Prop) (part : Machine → Machine × Status) : Prop :=
  ∀ m n, SameOn seen m.frames n.frames → Parallel seen m n (part m) (part n)

section parts

variable {seen : String → Prop} {m n : Machine}

/-- Nothing is printed or reported, though the frames may change. -/
theorem Parallel.silent {after after' : Machine} (hFrames : SameOn seen after.frames after'.frames)
    (hOutput : after.output = m.output ∧ after'.output = n.output)
    (hErrors : after.errors = m.errors ∧ after'.errors = n.errors) (status : Status) :
    Parallel seen m n (after, status) (after', status) := by
  refine ⟨rfl, hFrames, ⟨"", ?_⟩, ⟨"", ?_⟩⟩
  · simpa using hOutput
  · simpa using hErrors

theorem Machine.assign_console (m : Machine) (name : String) (value : Value) :
    (m.assign name value).output = m.output ∧ (m.assign name value).errors = m.errors := by
  rw [Machine.assign]
  cases m.frames <;> exact ⟨rfl, rfl⟩

theorem Parallel.assign (h : SameOn seen m.frames n.frames) (name : String) (value : Value) :
    Parallel seen m n (m.assign name value, .done) (n.assign name value, .done) := by
  have hLeft := m.assign_console name value
  have hRight := n.assign_console name value
  exact .silent (h.assign name value) ⟨hLeft.1, hRight.1⟩ ⟨hLeft.2, hRight.2⟩ .done

theorem Parallel.still (h : SameOn seen m.frames n.frames) (status : Status) :
    Parallel seen m n (m, status) (n, status) :=
  .silent h ⟨rfl, rfl⟩ ⟨rfl, rfl⟩ status

/-- One part of a run behind another. -/
theorem Parallel.trans {middle middle' : Machine × Status} {result other : Machine × Status}
    (first : Parallel seen m n middle middle')
    (last : Parallel seen middle.1 middle'.1 result other) :
    Parallel seen m n result other := by
  obtain ⟨text, hPrinted, hPrinted'⟩ := first.printed
  obtain ⟨more, hMore, hMore'⟩ := last.printed
  obtain ⟨report, hReported, hReported'⟩ := first.reported
  obtain ⟨further, hFurther, hFurther'⟩ := last.reported
  refine ⟨last.status_eq, last.frames, ⟨text ++ more, ?_, ?_⟩,
    ⟨report ++ further, ?_, ?_⟩⟩
  · rw [hMore, hPrinted, String.append_assoc]
  · rw [hMore', hPrinted', String.append_assoc]
  · rw [hFurther, hReported, String.append_assoc]
  · rw [hFurther', hReported', String.append_assoc]

end parts

instance (status : Status) : Decidable (status = .done) :=
  match status with
  | .done => isTrue rfl
  | .failed _ => isFalse Status.noConfusion
  | .running => isFalse Status.noConfusion

/-- A part of a run, with what follows it if the part ends normally. -/
def followedBy (first : Machine × Status) (next : Machine → Machine × Status) :
    Machine × Status :=
  if first.2 = .done then next first.1 else first

theorem executeAll_cons (rounds : Nat) (s : Node) (rest : List Node) (m : Machine) :
    executeAll rounds (s :: rest) m = followedBy (execute rounds s m) (executeAll rounds rest) := by
  rw [executeAll]
  obtain ⟨after, status⟩ := execute rounds s m
  cases status <;> rfl

/-- A loop over items sets its name, runs its body and goes on with the other
items, as long as the body ends normally. -/
theorem forEach_cons (name : String) (body : Machine → Machine × Status) (item : Value)
    (rest : List Value) (m : Machine) :
    forEach name body (item :: rest) m =
      followedBy (body (m.assign name item)) (forEach name body rest) := by
  rw [forEach]
  obtain ⟨after, status⟩ := body (m.assign name item)
  cases status <;> rfl

/-- A loop whose condition holds runs its body and goes on, as long as the body
ends normally. -/
theorem repeatWhile_succ {condition : Machine → Except Fault Value}
    {body : Machine → Machine × Status} {m : Machine} {value : Value}
    (h : condition m = .ok value) (hTruthy : value.truthy = true) (rounds : Nat) :
    repeatWhile condition body (rounds + 1) m =
      followedBy (body m) (repeatWhile condition body rounds) := by
  by_cases hDone : (body m).2 = .done
  · rw [followedBy, if_pos hDone]
    exact repeatWhile_succ_of_done h hTruthy (by rw [← hDone]) rounds
  · rw [followedBy, if_neg hDone]
    exact repeatWhile_succ_of_stopped h hTruthy hDone rounds

section uniform

variable {seen : String → Prop} {rounds : Nat}

/-- Two runs side by side stay so in what follows, if this is uniform. -/
theorem Parallel.followedBy {m n : Machine} {first first' : Machine × Status}
    {next : Machine → Machine × Status} (h : Parallel seen m n first first')
    (hNext : Uniform seen next) :
    Parallel seen m n (followedBy first next) (followedBy first' next) := by
  rw [Run.followedBy, Run.followedBy, h.status_eq]
  split
  · exact h.trans (hNext _ _ h.frames)
  · exact h

/-- A block prints on the console of the machine around it, and its own frame
is dropped. -/
theorem Uniform.inside {body : Machine → Machine × Status} (h : Uniform seen body) :
    Uniform seen fun m => m.inside body := by
  intro m n hFrames
  have hBody := h { m with frames := .empty :: m.frames } { n with frames := .empty :: n.frames }
    hFrames.in_block
  exact ⟨hBody.status_eq, hBody.frames.after_block, hBody.printed, hBody.reported⟩

/-- A loop reads the same condition on both sides, so only the rounds are left
to compare. -/
theorem Parallel.repeatWhile {body : Machine → Machine × Status}
    {condition : Machine → Except Fault Value} {m n : Machine}
    (hFrames : SameOn seen m.frames n.frames) (hSame : condition m = condition n)
    (hRound : ∀ value, condition n = .ok value → value.truthy = true →
      Parallel seen m n (repeatWhile condition body rounds m)
        (repeatWhile condition body rounds n)) :
    Parallel seen m n (repeatWhile condition body rounds m)
      (repeatWhile condition body rounds n) := by
  cases hValue : condition n with
  | error fault =>
      rw [repeatWhile_of_error (hSame.trans hValue), repeatWhile_of_error hValue]
      exact .still hFrames _
  | ok value =>
      cases hTruthy : value.truthy with
      | false =>
          rw [repeatWhile_of_falsy (hSame.trans hValue) hTruthy,
            repeatWhile_of_falsy hValue hTruthy]
          exact .still hFrames _
      | true => exact hRound value hValue hTruthy

/-- A loop under a condition is uniform, if its body is and its condition
agrees in both machines. The induction is on the rounds. -/
theorem Uniform.repeatWhile {body : Machine → Machine × Status}
    {condition : Machine → Except Fault Value} (h : Uniform seen body)
    (hCondition : ∀ m n, SameOn seen m.frames n.frames → condition m = condition n)
    (rounds : Nat) : Uniform seen (repeatWhile condition body rounds) := by
  induction rounds with
  | zero =>
      intro m n hFrames
      have hSame := hCondition m n hFrames
      refine .repeatWhile hFrames hSame fun value hValue hTruthy => ?_
      rw [repeatWhile_zero (hSame.trans hValue) hTruthy, repeatWhile_zero hValue hTruthy]
      exact .still hFrames _
  | succ rounds ih =>
      intro m n hFrames
      have hSame := hCondition m n hFrames
      refine .repeatWhile hFrames hSame fun value hValue hTruthy => ?_
      rw [repeatWhile_succ (hSame.trans hValue) hTruthy, repeatWhile_succ hValue hTruthy]
      exact (h m n hFrames).followedBy ih

/-- A loop over items is uniform, if its body is. The induction is on the
items. -/
theorem Uniform.forEach {body : Machine → Machine × Status} (h : Uniform seen body)
    (name : String) (items : List Value) : Uniform seen (forEach name body items) := by
  induction items with
  | nil => exact fun m n hFrames => .still hFrames _
  | cons item rest ih =>
      intro m n hFrames
      have hBound : Parallel seen m n _ _ := .assign hFrames name item
      rw [forEach_cons, forEach_cons]
      exact (hBound.trans (h _ _ hBound.frames)).followedBy ih

/-! ### Statements -/

/-- A statement that evaluates an expression first fails with it on both sides,
or goes on from one value. -/
theorem uniform_of_evaluate {part : Machine → Machine × Status} {e : Node}
    {visible earlier : List String} (hReads : ReadsWithin seen (readingsOf visible earlier e))
    (hFault : ∀ m fault, evaluate m.frames e = .error fault → part m = (m, .failed fault))
    (hValue : ∀ m n value, SameOn seen m.frames n.frames → evaluate m.frames e = .ok value →
      evaluate n.frames e = .ok value → Parallel seen m n (part m) (part n)) :
        Uniform seen part := by
  intro m n hFrames
  have hSame := evaluate_of_readsWithin hFrames hReads
  cases hRight : evaluate n.frames e with
  | error fault =>
      rw [hFault m fault (hSame.trans hRight), hFault n fault hRight]
      exact .still hFrames _
  | ok value => exact hValue m n value hFrames (hSame.trans hRight) hRight

variable {visible earlier : List String}

theorem declaration_uniform (name : String) (type : Option Ty) {value : Node} (constant : Bool)
    (hReads : ReadsWithin seen (readingsOf visible earlier value)) :
    Uniform seen (execute rounds (.declaration name type value constant)) := by
  refine uniform_of_evaluate hReads (fun m fault hFault => ?_) fun m n v hFrames hLeft hRight => ?_
  · rw [execute, hFault]
  · rw [execute, execute, hLeft, hRight]
    exact .assign hFrames name v

/-- A bare expression is uniform in the names that it reads. -/
theorem expressionStatement_uniform {expression : Node}
    (hReads : ReadsWithin seen (readingsOf visible earlier expression)) :
    Uniform seen (execute rounds (.expressionStatement expression)) := by
  refine uniform_of_evaluate hReads (fun m fault hFault => ?_) fun m n v hFrames hLeft hRight => ?_
  · rw [execute, hFault]
  · rw [execute, execute, hLeft, hRight]
    exact .still hFrames _

/-- Showing a value is uniform in the names that it reads. -/
theorem showStatement_uniform {value : Node}
    (hReads : ReadsWithin seen (readingsOf visible earlier value)) :
    Uniform seen (execute rounds (.showStatement value)) := by
  intro m n hFrames
  rw [execute, execute, evaluate_of_readsWithin hFrames hReads]
  cases evaluate n.frames value >>= writeValue with
  | error fault => exact .still hFrames _
  | ok text =>
      exact ⟨rfl, hFrames, ⟨text ++ "\n", rfl, rfl⟩, ⟨"", by simp [Machine.print]⟩⟩

/-- Returning a value is uniform in the names that it reads. -/
theorem returnStatement_uniform {value : Node}
    (hReads : ReadsWithin seen (readingsOf visible earlier value)) :
    Uniform seen (execute rounds (.returnStatement value)) := by
  by_cases hMissing : value = .missing
  · subst hMissing
    intro m n hFrames
    rw [execute, execute]
    exact .still hFrames _
  · refine uniform_of_evaluate hReads (fun m fault hFault => ?_) fun m n v hFrames hLeft hRight =>
      ?_
    · rw [execute, hFault]
      exact hMissing
    · rw [execute, execute, hLeft, hRight]
      · exact .still hFrames _
      · exact hMissing
      · exact hMissing

/-- A conditional is uniform in the names that its condition reads, if both
branches are. A missing branch does nothing, which is uniform, too. -/
theorem ifStatement_uniform {condition thenBlock elseBlock : Node}
    (hReads : ReadsWithin seen (readingsOf visible earlier condition))
    (hThen : Uniform seen (executeBlock rounds thenBlock))
    (hElse : Uniform seen (executeBlock rounds elseBlock)) :
    Uniform seen (execute rounds (.ifStatement condition thenBlock elseBlock)) := by
  by_cases hMissing : elseBlock = .missing
  · subst hMissing
    refine uniform_of_evaluate hReads (fun m fault hFault => ?_) fun m n v hFrames hLeft hRight =>
      ?_
    · rw [execute, hFault]
    · rw [execute, execute, hLeft, hRight]
      cases hTruthy : v.truthy with
      | true => simpa only [hTruthy, if_true] using hThen.inside m n hFrames
      | false =>
          simpa only [hTruthy, Bool.false_eq_true, if_false] using Parallel.still hFrames .done
  · refine uniform_of_evaluate hReads (fun m fault hFault => ?_) fun m n v hFrames hLeft hRight =>
      ?_
    · rw [execute, hFault]
      exact hMissing
    · rw [execute, execute, hLeft, hRight]
      · cases hTruthy : v.truthy with
        | true => simpa only [hTruthy, if_true] using hThen.inside m n hFrames
        | false => simpa only [hTruthy, Bool.false_eq_true, if_false] using hElse.inside m n hFrames
      · exact hMissing
      · exact hMissing

/-- A loop is uniform in the names that its condition reads, if its body is. -/
theorem whileStatement_uniform {condition body : Node}
    (hReads : ReadsWithin seen (readingsOf visible earlier condition))
    (hBody : Uniform seen (executeBlock rounds body)) :
    Uniform seen (execute rounds (.whileStatement condition body)) := by
  intro m n hFrames
  rw [execute_whileStatement, execute_whileStatement]
  have hCondition : ∀ m n : Machine, SameOn seen m.frames n.frames →
      evaluate m.frames condition = evaluate n.frames condition :=
    fun _ _ hSame => evaluate_of_readsWithin hSame hReads
  exact hBody.inside.repeatWhile hCondition rounds m n hFrames

/-- A loop over items is uniform in the names that these read, if its body
is. -/
theorem forStatement_uniform (iterator : String) {iterable body : Node}
    (hReads : ReadsWithin seen (readingsOf visible earlier iterable))
    (hBody : Uniform seen (executeBlock rounds body)) :
    Uniform seen (execute rounds (.forStatement iterator iterable body)) := by
  refine uniform_of_evaluate hReads (fun m fault hFault => ?_) fun m n v hFrames hLeft hRight => ?_
  · rw [execute, hFault]
  · rw [execute, execute, hLeft, hRight]
    dsimp only
    cases v.items? with
    | none => exact .still hFrames _
    | some items => exact hBody.inside.forEach iterator items m n hFrames

/-- A page element is uniform in the names that its content reads. -/
theorem element_uniform (tag : String) (attributes : Table String) {content : List Node}
    (hReads : ReadsWithin seen (content.flatMap (contentReadings visible earlier))) :
    Uniform seen (execute rounds (.element tag attributes content)) := by
  intro m n hFrames
  have hSource : elementSource m.frames tag attributes content =
      elementSource n.frames tag attributes content := by
    rw [elementSource, elementSource, contentSource_of_readsWithin hFrames hReads]
  rw [execute, execute, hSource]
  cases elementSource n.frames tag attributes content with
  | error fault => exact .still hFrames _
  | ok source => exact ⟨rfl, hFrames, ⟨_, rfl, rfl⟩, ⟨_, rfl, rfl⟩⟩

end uniform

mutual

/-- Machines whose frames agree on the names that a statement reads run it side
by side, whatever blocks and loops it is made of. -/
theorem execute_uniform {seen : String → Prop} (rounds : Nat) (s : Node)
    {visible earlier : List String} (hReads : ReadsWithin seen (readings visible earlier s)) :
    Uniform seen (execute rounds s) := by
  cases s with
  | declaration name type value constant => exact declaration_uniform name type constant hReads
  | showStatement value => exact showStatement_uniform hReads
  | returnStatement value => exact returnStatement_uniform hReads
  | expressionStatement expression => exact expressionStatement_uniform hReads
  | ifStatement condition thenBlock elseBlock =>
      simp only [readings, readsWithin_append] at hReads
      obtain ⟨⟨hCondition, hThen⟩, hElse⟩ := hReads
      exact ifStatement_uniform hCondition (executeBlock_uniform rounds thenBlock hThen)
        (executeBlock_uniform rounds elseBlock hElse)
  | whileStatement condition body =>
      simp only [readings, readsWithin_append] at hReads
      exact whileStatement_uniform hReads.1 (executeBlock_uniform rounds body hReads.2)
  | forStatement iterator iterable body =>
      simp only [readings, readsWithin_append] at hReads
      exact forStatement_uniform iterator hReads.1 (executeBlock_uniform rounds body hReads.2)
  | element tag attributes content => exact element_uniform tag attributes hReads
  | functionDeclaration name parameters result body async =>
      intro m n hFrames
      rw [execute, execute]
      apply Parallel.silent
      · exact hFrames
      · exact ⟨rfl, rfl⟩
      · exact ⟨rfl, rfl⟩
  | _ =>
      intro m n hFrames
      simp only [execute]
      exact .still hFrames _

/-- A block is uniform in the names that it reads. -/
theorem executeBlock_uniform {seen : String → Prop} (rounds : Nat) (block : Node)
    {visible earlier : List String}
    (hReads : ReadsWithin seen (blockReadings visible earlier block)) :
    Uniform seen (executeBlock rounds block) := by
  cases block with
  | block statements =>
      simp only [blockReadings] at hReads
      simp only [executeBlock]
      exact executeAll_uniform rounds statements hReads
  | program statements =>
      simp only [blockReadings] at hReads
      simp only [executeBlock]
      exact executeAll_uniform rounds statements hReads
  | _ =>
      intro m n hFrames
      simp only [executeBlock]
      exact .still hFrames _

/-- Statements are uniform in the names that they read. -/
theorem executeAll_uniform {seen : String → Prop} (rounds : Nat) (statements : List Node)
    {visible earlier : List String}
    (hReads : ReadsWithin seen (readingsAll visible earlier statements)) :
    Uniform seen (executeAll rounds statements) := by
  cases statements with
  | nil =>
      intro m n hFrames
      rw [executeAll, executeAll]
      exact .still hFrames _
  | cons s rest =>
      simp only [readingsAll, readsWithin_append] at hReads
      intro m n hFrames
      rw [executeAll_cons, executeAll_cons]
      exact (execute_uniform rounds s hReads.1 m n hFrames).followedBy
        (executeAll_uniform rounds rest hReads.2)

end

end PageScript.Run
