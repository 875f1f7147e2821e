import PageScript.Proofs.Run.Loops
import PageScript.Proofs.Sequencing

/-! Names that a running script does not find. Every place where a script reads
a name is listed with the names that are visible there: those declared before
it in its own block and in the blocks around that. Main statement: a run misses
a name only at a place where it is not visible, whatever blocks and loops the
script is made of. -/
namespace PageScript.Run

/-- The names that evaluating an expression looks up. -/
def lookups : Node → List String
  | .identifier name => [name]
  | .binary left _ right => lookups left ++ lookups right
  | _ => []

/-- A place where a script reads a name. -/
structure Reading where
  name : String
  /-- The names declared before it in its own block and in the blocks around
  that, with the names of the loops it stands in. -/
  visible : List String
  /-- All variables and parameters declared before it, in whatever block. -/
  earlier : List String
  deriving Repr, DecidableEq

def readingsOf (visible earlier : List String) (expression : Node) : List Reading :=
  (lookups expression).map fun name => ⟨name, visible, earlier⟩

/-- The name that a statement declares in its own block. -/
def declaredHere : Node → List String
  | .declaration name _ _ _ => [name]
  | _ => []

mutual

/-- The variables and parameters that a statement declares, at any depth. -/
def declared : Node → List String
  | .declaration name _ _ _ => [name]
  | .program statements => declaredAll statements
  | .block statements => declaredAll statements
  | .functionDeclaration _ parameters _ body _ => parameters.map Parameter.name ++ declared body
  | .ifStatement _ thenBlock elseBlock => declared thenBlock ++ declared elseBlock
  | .whileStatement _ body => declared body
  | .forStatement _ _ body => declared body
  | _ => []

def declaredAll : List Node → List String
  | [] => []
  | s :: rest => declared s ++ declaredAll rest

end

/-- The readings of an item of an element, which is handed over as it
stands. -/
def contentReadings (visible earlier : List String) : Node → List Reading
  | .showStatement value => readingsOf visible earlier value
  | .declaration _ _ value _ => readingsOf visible earlier value
  | _ => []

mutual

/-- The places where running a statement can read a name. The body of a
function is not among them: a declared function is never run. -/
def readings (visible earlier : List String) : Node → List Reading
  | .declaration _ _ value _ => readingsOf visible earlier value
  | .showStatement value => readingsOf visible earlier value
  | .returnStatement value => readingsOf visible earlier value
  | .expressionStatement expression => readingsOf visible earlier expression
  | .ifStatement condition thenBlock elseBlock =>
    readingsOf visible earlier condition ++ blockReadings visible earlier thenBlock ++
      blockReadings visible (declared thenBlock ++ earlier) elseBlock
  | .whileStatement condition body =>
    readingsOf visible earlier condition ++ blockReadings visible earlier body
  | .forStatement iterator iterable body =>
    readingsOf visible earlier iterable ++ blockReadings (iterator :: visible) earlier body
  | .element _ _ content => content.flatMap (contentReadings visible earlier)
  | _ => []

def blockReadings (visible earlier : List String) : Node → List Reading
  | .block statements => readingsAll visible earlier statements
  | .program statements => readingsAll visible earlier statements
  | _ => []

/-- A statement sees what the statements before it in its block have
declared. -/
def readingsAll (visible earlier : List String) : List Node → List Reading
  | [] => []
  | s :: rest =>
    readings visible earlier s ++ readingsAll (declaredHere s ++ visible)
    (declared s ++ earlier) rest

end

/-! ### Frames that bind the visible names -/

/-- There is a frame to run in, and each of these names is bound. -/
structure Sees (frames : List Frame) (visible : List String) : Prop where
  inFrame : frames ≠ []
  bound : ∀ name ∈ visible, (findInChain frames name).isSome = true

theorem findInChain_cons (frame : Frame) (outer : List Frame) (name : String) :
    findInChain (frame :: outer) name = (frame.get? name).or (findInChain outer name) := by
  rw [findInChain, List.findSome?_cons]
  cases frame.get? name <;> rfl

section frames

variable {frame : Frame} {frames outer : List Frame} {visible : List String}

theorem Sees.in_block (h : Sees frames visible) : Sees (.empty :: frames) visible := by
  refine ⟨List.cons_ne_nil _ _, fun name hName => ?_⟩
  rw [findInChain_cons]
  exact h.bound name hName

theorem Sees.set (h : Sees (frame :: outer) visible) (name : String) (value : Value) :
    Sees (frame.set name value :: outer) (name :: visible) := by
  refine ⟨List.cons_ne_nil _ _, fun other hOther => ?_⟩
  rw [findInChain_cons]
  by_cases hSame : other = name
  · rw [hSame, Table.get?_set_self]
    rfl
  · have hBound := h.bound other ((List.mem_cons.mp hOther).resolve_left hSame)
    rwa [Table.get?_set_of_ne frame hSame, ← findInChain_cons]

theorem Sees.forget {name : String} (h : Sees frames (name :: visible)) : Sees frames visible :=
  ⟨h.inFrame, fun other hOther => h.bound other (.tail _ hOther)⟩

/-- What is visible stays so when a frame is rewritten at a name. -/
theorem Sees.rewritten {inner : Frame} {name? : Option String} (h : Sees (frame :: outer) visible)
    (hRewritten : Rewritten name? frame inner) : Sees (inner :: outer) visible := by
  cases name? with
  | none =>
      cases hRewritten
      exact h
  | some name =>
      obtain ⟨values, rfl⟩ := hRewritten
      induction values generalizing frame with
      | nil => exact h
      | cons value rest ih => exact ih (h.set name value).forget

end frames

/-- A statement that ends normally leaves all visible names bound, and its own
one with them. A declaration that ends normally has set its name, and no
statement unsets one. -/
theorem execute_sees {rounds : Nat} {s : Node} {m after : Machine} {visible : List String}
    (h : Sees m.frames visible) (hDone : execute rounds s m = (after, .done)) :
    Sees after.frames (declaredHere s ++ visible) := by
  obtain ⟨frame, outer, hFrames⟩ := List.exists_cons_of_ne_nil h.inFrame
  rw [hFrames] at h
  obtain ⟨inner, hInner, hRewritten⟩ := execute_writes rounds s m frame outer hFrames
  rw [hDone] at hInner
  by_cases hDeclares : ∃ name type value constant, s = .declaration name type value constant
  · obtain ⟨name, type, value, constant, rfl⟩ := hDeclares
    rw [execute] at hDone
    cases hValue : evaluate m.frames value with
    | error fault =>
        rw [hValue] at hDone
        cases hDone
    | ok v =>
        rw [hValue] at hDone
        cases hDone
        rw [Machine.assign_frames hFrames]
        exact h.set name v
  · have hNone : declaredHere s = [] := by
      cases s with
      | declaration name type value constant =>
          exact absurd ⟨name, type, value, constant, rfl⟩ hDeclares
      | _ => rfl
    rw [hNone, hInner]
    exact h.rewritten hRewritten

/-! ### Expressions -/

/-- An operation fails for an arithmetic reason only, and never because a name
is unknown. -/
theorem operate_error {operator : String} {a b : Value} {fault : Fault}
    (h : operate operator a b = .error fault) :
    ∃ cause, fault = .arithmetic cause := by
  have hMapped : ∀ {result : Except ArithmeticFault Value}, result.mapError Fault.arithmetic =
      .error fault →
      ∃ cause, fault = .arithmetic cause := by
    intro result hResult
    obtain ⟨cause, -, hCause⟩ := mapError_eq_error hResult
    exact ⟨cause, hCause⟩
  unfold operate at h
  split at h
  all_goals first
    | exact hMapped h
    | cases h

/-- An expression misses a name only by looking it up in frames that do not
bind it. The recursion is that of the evaluation; operators have faults of
their own, which name no variable. -/
theorem evaluate_undefined {frames : List Frame} (e : Node) {name : String}
    (h : evaluate frames e = .error (.undefinedVariable name)) :
    name ∈ lookups e ∧ findInChain frames name = none := by
  cases e with
  | identifier other =>
      rw [evaluate] at h
      cases hFound : findInChain frames other with
      | some value =>
          rw [hFound] at h
          cases h
      | none =>
          rw [hFound] at h
          cases h
          exact ⟨.head _, hFound⟩
  | binary left operator right =>
      rw [evaluate, bind_eq_error_iff] at h
      simp only [bind_eq_error_iff] at h
      rw [lookups, List.mem_append]
      obtain hLeft | ⟨a, -, hRight | ⟨b, -, hOperate⟩⟩ := h
      · obtain ⟨hMem, hNone⟩ := evaluate_undefined left hLeft
        exact ⟨.inl hMem, hNone⟩
      · obtain ⟨hMem, hNone⟩ := evaluate_undefined right hRight
        exact ⟨.inr hMem, hNone⟩
      · obtain ⟨cause, hCause⟩ := operate_error hOperate
        cases hCause
  | _ => cases h

/-- Somewhere among these readings the name is read and not visible. -/
def Missing (name : String) (readings : List Reading) : Prop :=
  ∃ r ∈ readings, r.name = name ∧ name ∉ r.visible

section missing

variable {name : String} {front others : List Reading}

theorem Missing.left (h : Missing name front) : Missing name (front ++ others) := by
  obtain ⟨r, hMem, hr⟩ := h
  exact ⟨r, List.mem_append_left _ hMem, hr⟩

theorem Missing.right (h : Missing name others) : Missing name (front ++ others) := by
  obtain ⟨r, hMem, hr⟩ := h
  exact ⟨r, List.mem_append_right _ hMem, hr⟩

end missing

/-! ### Statements -/

/-- A part of a script misses a name only at one of these places, where the
name is not visible. The places depend on what is visible before and has been
declared before. -/
def MissesAt (part : Machine → Machine × Status)
    (places : List String → List String → List Reading) : Prop :=
  ∀ m visible earlier name, Sees m.frames visible →
    (part m).2 = .failed (.undefinedVariable name) →
    Missing name (places visible earlier)

/-- A name that an expression misses is read there, and not visible. -/
theorem missing_of_evaluate {frames : List Frame} {visible : List String}
    (hSees : Sees frames visible) (earlier : List String) {e : Node} {name : String}
    (h : evaluate frames e = .error (.undefinedVariable name)) :
    Missing name (readingsOf visible earlier e) := by
  obtain ⟨hMem, hNone⟩ := evaluate_undefined e h
  refine ⟨⟨name, visible, earlier⟩, List.mem_map.mpr ⟨name, hMem, rfl⟩, rfl,
    fun hVisible => ?_⟩
  have hBound := hSees.bound name hVisible
  rw [hNone] at hBound
  cases hBound

theorem MissesAt.inside {body : Machine → Machine × Status}
    {places : List String → List String → List Reading} (h : MissesAt body places) :
    MissesAt (fun m => m.inside body) places :=
  fun m visible earlier name hSees hFailed =>
    h { m with frames := .empty :: m.frames } visible earlier name hSees.in_block hFailed

/-- A loop that fails does so in its condition, in the next round, or in the
loop after that round. A loop that has used up its rounds is running still, and
has not failed. -/
theorem repeatWhile_failed_cases {condition : Machine → Except Fault Value}
    {body : Machine → Machine × Status} {rounds : Nat} {m : Machine} {fault : Fault}
    (h : (repeatWhile condition body rounds m).2 = .failed fault) :
    condition m = .error fault ∨ (body m).2 = .failed fault ∨
      ∃ fewer, rounds = fewer + 1 ∧
        (repeatWhile condition body fewer (body m).1).2 = .failed fault := by
  cases hValue : condition m with
  | error cause =>
      rw [repeatWhile_of_error hValue] at h
      cases h
      exact .inl rfl
  | ok value =>
      cases hTruthy : value.truthy with
      | false =>
          rw [repeatWhile_of_falsy hValue hTruthy] at h
          cases h
      | true =>
          cases rounds with
          | zero =>
              rw [repeatWhile_zero hValue hTruthy] at h
              cases h
          | succ fewer =>
              by_cases hDone : (body m).2 = .done
              · have hRound : body m = ((body m).1, .done) := by rw [← hDone]
                rw [repeatWhile_succ_of_done hValue hTruthy hRound] at h
                exact .inr (.inr ⟨fewer, rfl, h⟩)
              · rw [repeatWhile_succ_of_stopped hValue hTruthy hDone] at h
                exact .inr (.inl h)

/-- A loop that fails has failed in its condition or in its body, and no frame
has changed by then. -/
theorem repeatWhile_failed {condition : Machine → Except Fault Value}
    {body : Machine → Machine × Status} (hBody : KeepsFrames body) (rounds : Nat) {m : Machine}
    {fault : Fault} (h : (repeatWhile condition body rounds m).2 = .failed fault) :
    ∃ n : Machine, n.frames = m.frames ∧
      (condition n = .error fault ∨ (body n).2 = .failed fault) := by
  induction rounds generalizing m with
  | zero =>
      obtain hCondition | hRound | ⟨fewer, hFewer, -⟩ := repeatWhile_failed_cases h
      · exact ⟨m, rfl, .inl hCondition⟩
      · exact ⟨m, rfl, .inr hRound⟩
      · cases hFewer
  | succ rounds ih =>
      obtain hCondition | hRound | ⟨fewer, hFewer, hRest⟩ := repeatWhile_failed_cases h
      · exact ⟨m, rfl, .inl hCondition⟩
      · exact ⟨m, rfl, .inr hRound⟩
      · cases hFewer
        obtain ⟨n, hFrames, hFailed⟩ := ih hRest
        exact ⟨n, hFrames.trans (hBody m), hFailed⟩

/-- A loop over items that fails has failed in its body, with its own name
bound. -/
theorem forEach_failed {body : Machine → Machine × Status} (hBody : KeepsFrames body)
    {iterator : String} {items : List Value} {m : Machine} {visible : List String} {fault : Fault}
    (hSees : Sees m.frames visible) (h : (forEach iterator body items m).2 = .failed fault) :
    ∃ n : Machine, Sees n.frames (iterator :: visible) ∧ (body n).2 = .failed fault := by
  induction items generalizing m with
  | nil => cases h
  | cons item rest ih =>
      have hRound : Sees (m.assign iterator item).frames (iterator :: visible) := by
        obtain ⟨frame, outer, hFrames⟩ := List.exists_cons_of_ne_nil hSees.inFrame
        rw [hFrames] at hSees
        rw [Machine.assign_frames hFrames]
        exact hSees.set iterator item
      have hKept := hBody (m.assign iterator item)
      rw [forEach] at h
      split at h
      · rename_i after hAfter
        rw [hAfter] at hKept
        rw [← hKept] at hRound
        exact ih hRound.forget h
      · exact ⟨_, hRound, h⟩

section statements

variable {rounds : Nat}

/-- All that running a condition with its two blocks can come to. A branch that
is missing ends normally. -/
theorem execute_ifStatement_cases (rounds : Nat) (condition thenBlock elseBlock : Node)
    (m : Machine) :
    (∃ fault, evaluate m.frames condition = .error fault ∧
      execute rounds (.ifStatement condition thenBlock elseBlock) m = (m, .failed fault)) ∨
    execute rounds (.ifStatement condition thenBlock elseBlock) m =
      (m.inside fun m => executeBlock rounds thenBlock m) ∨
    execute rounds (.ifStatement condition thenBlock elseBlock) m = (m, .done) ∨
    execute rounds (.ifStatement condition thenBlock elseBlock) m =
      m.inside fun m => executeBlock rounds elseBlock m := by
  by_cases hMissing : elseBlock = .missing
  · subst hMissing
    rw [execute]
    cases hValue : evaluate m.frames condition with
    | error fault => exact .inl ⟨fault, rfl, rfl⟩
    | ok value =>
        cases hTruthy : value.truthy with
        | true => exact .inr (.inl (by simp [hTruthy]))
        | false => exact .inr (.inr (.inl (by simp [hTruthy])))
  · rw [execute]
    · cases hValue : evaluate m.frames condition with
      | error fault => exact .inl ⟨fault, rfl, rfl⟩
      | ok value =>
          cases hTruthy : value.truthy with
          | true => exact .inr (.inl (by simp [hTruthy]))
          | false => exact .inr (.inr (.inr (by simp [hTruthy])))
    · exact hMissing

/-- A conditional misses a name at a place of its condition or of a branch. -/
theorem ifStatement_missesAt (condition : Node) {thenBlock elseBlock : Node}
    (hThen : MissesAt (executeBlock rounds thenBlock) fun v e => blockReadings v e thenBlock)
    (hElse : MissesAt (executeBlock rounds elseBlock) fun v e => blockReadings v e elseBlock) :
    MissesAt (execute rounds (.ifStatement condition thenBlock elseBlock))
      fun v e => readings v e (.ifStatement condition thenBlock elseBlock) := by
  intro m visible earlier name hSees h
  simp only [readings]
  obtain ⟨fault, hValue, hRun⟩ | hRun | hRun | hRun :=
    execute_ifStatement_cases rounds condition thenBlock elseBlock m
  all_goals rw [hRun] at h
  · cases h
    exact (missing_of_evaluate hSees earlier hValue).left.left
  · exact (hThen.inside m visible earlier name hSees h).right.left
  · cases h
  · exact (hElse.inside m visible (declared thenBlock ++ earlier) name hSees h).right

/-- A loop misses a name at a place of its condition or of its body. The frames
around it do not change from round to round. -/
theorem whileStatement_missesAt (condition : Node) {body : Node}
    (hBody : MissesAt (executeBlock rounds body) fun v e => blockReadings v e body) :
    MissesAt (execute rounds (.whileStatement condition body))
      fun v e => readings v e (.whileStatement condition body) := by
  intro m visible earlier name hSees h
  simp only [readings]
  rw [execute_whileStatement] at h
  obtain ⟨n, hFrames, hFailed⟩ :=
    repeatWhile_failed (loopRound_keepsFrames rounds body) rounds h
  rw [← hFrames] at hSees
  obtain hValue | hRound := hFailed
  · exact (missing_of_evaluate hSees earlier hValue).left
  · exact (hBody.inside n visible earlier name hSees hRound).right

/-- A loop over items misses a name at a place of what it loops over or of its
body, where its own name is visible. -/
theorem forStatement_missesAt (iterator : String) (iterable : Node) {body : Node}
    (hBody : MissesAt (executeBlock rounds body) fun v e => blockReadings v e body) :
    MissesAt (execute rounds (.forStatement iterator iterable body))
      fun v e => readings v e (.forStatement iterator iterable body) := by
  intro m visible earlier name hSees h
  simp only [readings]
  rw [execute] at h
  cases hValue : evaluate m.frames iterable with
  | error fault =>
      rw [hValue] at h
      cases h
      exact (missing_of_evaluate hSees earlier hValue).left
  | ok value =>
      rw [hValue] at h
      dsimp only at h
      cases hItems : value.items? with
      | none =>
          rw [hItems] at h
          cases h
      | some items =>
          rw [hItems] at h
          obtain ⟨n, hSees, hRound⟩ :=
            forEach_failed (loopRound_keepsFrames rounds body) hSees h
          exact (hBody.inside n (iterator :: visible) earlier name hSees hRound).right

/-- A statement that only evaluates one expression and fails as the evaluation
does. -/
theorem missesAt_of_evaluate {part : Machine → Machine × Status} {value : Node}
    (h : ∀ m name, (part m).2 = .failed (.undefinedVariable name) →
      evaluate m.frames value = .error (.undefinedVariable name)) :
    MissesAt part fun v e => readingsOf v e value :=
  fun m _ earlier name hSees hFailed => missing_of_evaluate hSees earlier (h m name hFailed)

theorem writeValue_error {value : Value} {fault : Fault} (h : writeValue value = .error fault) :
    ∃ cause, fault = .numeral cause := by
  obtain ⟨cause, -, hCause⟩ := mapError_eq_error h
  exact ⟨cause, hCause⟩

/-- Evaluating and writing a value misses a name only in the evaluation. -/
theorem evaluate_of_write_undefined {frames : List Frame} {value : Node} {name : String}
    (h : (evaluate frames value >>= writeValue) = .error (.undefinedVariable name)) :
    evaluate frames value = .error (.undefinedVariable name) := by
  obtain hValue | ⟨v, -, hWrite⟩ := bind_eq_error_iff.mp h
  · exact hValue
  · obtain ⟨cause, hCause⟩ := writeValue_error hWrite
    cases hCause

/-- An item is handed over as its value in writing, joined to the items behind
it. A name is missed in the value or in these items, and nothing else can miss
one. -/
theorem itemSource_undefined {frames : List Frame} {value : Node} {rest : List Node}
    {visible earlier : List String} {name : String} {join : String → String → String}
    (hSees : Sees frames visible)
    (ih : contentSource frames rest = .error (.undefinedVariable name) →
      Missing name (rest.flatMap (contentReadings visible earlier)))
    (h : (do
      let v ← evaluate frames value
      let text ← writeValue v
      let others ← contentSource frames rest
      return join text others) = .error (.undefinedVariable name)) :
    Missing name (readingsOf visible earlier value ++
      rest.flatMap (contentReadings visible earlier)) := by
  simp only [bind_eq_error_iff] at h
  obtain hValue | ⟨v, -, hWrite | ⟨text, -, hRest | ⟨others, -, hReturn⟩⟩⟩ := h
  · exact (missing_of_evaluate hSees earlier hValue).left
  · obtain ⟨cause, hCause⟩ := writeValue_error hWrite
    cases hCause
  · exact (ih hRest).right
  · cases hReturn

/-- Handing over content misses a name only in one of its items. -/
theorem contentSource_undefined {frames : List Frame} {content : List Node} {visible : List String}
    (hSees : Sees frames visible) (earlier : List String) {name : String}
    (h : contentSource frames content = .error (.undefinedVariable name)) :
    Missing name (content.flatMap (contentReadings visible earlier)) := by
  induction content with
  | nil => cases h
  | cons item rest ih =>
      rw [List.flatMap_cons]
      cases item with
      | showStatement value => exact itemSource_undefined hSees ih h
      | declaration declaredName type value constant => exact itemSource_undefined hSees ih h
      | _ => cases h

mutual

/-- Every statement misses names only where they are not visible, whatever
blocks and loops it is made of. One case for each sort of statement, by
recursion into its blocks. -/
theorem execute_missesAt (rounds : Nat) (s : Node) :
    MissesAt (execute rounds s) fun v e => readings v e s := by
  cases s with
  | declaration name type value constant =>
      simp only [readings]
      refine missesAt_of_evaluate fun m missed h => ?_
      rw [execute] at h
      split at h
      · cases h
      · rename_i hValue
        cases h
        exact hValue
  | showStatement value =>
      simp only [readings]
      refine missesAt_of_evaluate fun m missed h => evaluate_of_write_undefined ?_
      rw [execute] at h
      split at h
      · cases h
      · rename_i hText
        cases h
        exact hText
  | returnStatement value =>
      simp only [readings]
      refine missesAt_of_evaluate fun m missed h => ?_
      by_cases hMissing : value = .missing
      · subst hMissing
        rw [execute] at h
        cases h
      · rw [execute] at h
        · split at h
          · cases h
          · rename_i hValue
            cases h
            exact hValue
        · exact hMissing
  | expressionStatement expression =>
      simp only [readings]
      refine missesAt_of_evaluate fun m missed h => ?_
      rw [execute] at h
      split at h
      · cases h
      · rename_i hValue
        cases h
        exact hValue
  | ifStatement condition thenBlock elseBlock =>
      exact ifStatement_missesAt condition (executeBlock_missesAt rounds thenBlock)
        (executeBlock_missesAt rounds elseBlock)
  | whileStatement condition body =>
      exact whileStatement_missesAt condition (executeBlock_missesAt rounds body)
  | forStatement iterator iterable body =>
      exact forStatement_missesAt iterator iterable (executeBlock_missesAt rounds body)
  | element tag attributes content =>
      intro m visible earlier name hSees h
      simp only [readings]
      rw [execute] at h
      split at h
      · cases h
      · rename_i hSource
        cases h
        obtain hContent | ⟨inside, -, hReturn⟩ := bind_eq_error_iff.mp hSource
        · exact contentSource_undefined hSees earlier hContent
        · cases hReturn
  | _ =>
      intro m visible earlier name hSees h
      simp only [execute] at h
      cases h

/-- A block misses a name only at a place where it is not visible. -/
theorem executeBlock_missesAt (rounds : Nat) (block : Node) :
    MissesAt (executeBlock rounds block) fun v e => blockReadings v e block := by
  cases block with
  | block statements =>
      simp only [executeBlock, blockReadings]
      exact executeAll_missesAt rounds statements
  | program statements =>
      simp only [executeBlock, blockReadings]
      exact executeAll_missesAt rounds statements
  | _ =>
      intro m visible earlier name hSees h
      simp only [executeBlock] at h
      cases h

/-- Statements miss a name only at a place where it is not visible. -/
theorem executeAll_missesAt (rounds : Nat) (statements : List Node) :
    MissesAt (executeAll rounds statements) fun v e => readingsAll v e statements := by
  cases statements with
  | nil =>
      intro m visible earlier name hSees h
      rw [executeAll] at h
      cases h
  | cons s rest =>
      intro m visible earlier name hSees h
      simp only [readingsAll]
      rw [executeAll] at h
      split at h
      · rename_i after hAfter
        exact (executeAll_missesAt rounds rest after (declaredHere s ++ visible)
          (declared s ++ earlier) name
          (execute_sees hSees hAfter) h).right
      · exact (execute_missesAt rounds s m visible earlier name hSees h).left

end

end statements

end PageScript.Run
