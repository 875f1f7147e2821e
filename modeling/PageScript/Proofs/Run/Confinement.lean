import PageScript.Proofs.Analysis.Locality
import PageScript.Proofs.Run.Agreement

/-! A script sees only the variables that it names. How a run ends does not
depend on how many rounds are allowed to its loops, once they are enough. Main
statement: from two machines whose global frames agree on the names that occur
in a script, it ends in the same way, with the same on both consoles, and the
frames agree on these names again, while each keeps all its other variables. -/
namespace PageScript

namespace Node

/-- The variables that a node itself reads, declares or loops with. -/
def touches : Node → List String
  | identifier name => [name]
  | declaration name _ _ _ => [name]
  | forStatement iterator _ _ => [iterator]
  | _ => []

/-- The variable is named somewhere in the node. -/
abbrev Names (n : Node) (name : String) : Prop := n.Holds touches name

end Node

namespace Run

/-! ### Names that are read -/

theorem names_of_mem_lookups (e : Node) {name : String} (h : name ∈ lookups e) :
    e.Names name := by
  cases e with
  | identifier other =>
      cases List.mem_singleton.mp h
      exact .here (.head _)
  | binary left operator right =>
      rw [lookups, List.mem_append] at h
      rcases h with hLeft | hRight
      · exact .inside (.head _) (names_of_mem_lookups left hLeft)
      · exact .inside (.tail _ (.head _)) (names_of_mem_lookups right hRight)
  | _ => cases h

theorem names_of_mem_readingsOf {visible earlier : List String} {e : Node} {r : Reading}
    (h : r ∈ readingsOf visible earlier e) : e.Names r.name := by
  obtain ⟨name, hName, rfl⟩ := List.mem_map.mp h
  exact names_of_mem_lookups e hName

mutual

/-- What a statement reads is named in it. The recursion is that of the
readings, which go into every block of the statement. -/
theorem names_of_mem_readings {visible earlier : List String} (s : Node) {r : Reading}
    (h : r ∈ readings visible earlier s) : s.Names r.name := by
  cases s with
  | declaration | showStatement | returnStatement | expressionStatement =>
      rw [readings] at h
      exact .inside (.head _) (names_of_mem_readingsOf h)
  | ifStatement condition thenBlock elseBlock =>
      rw [readings, List.mem_append, List.mem_append] at h
      rcases h with (hCondition | hThen) | hElse
      · exact .inside (.head _) (names_of_mem_readingsOf hCondition)
      · exact .inside (.tail _ (.head _)) (names_of_mem_blockReadings thenBlock hThen)
      · exact .inside (.tail _ (.tail _ (.head _))) (names_of_mem_blockReadings elseBlock hElse)
  | whileStatement condition body =>
      rw [readings, List.mem_append] at h
      rcases h with hCondition | hBody
      · exact .inside (.head _) (names_of_mem_readingsOf hCondition)
      · exact .inside (.tail _ (.head _)) (names_of_mem_blockReadings body hBody)
  | forStatement iterator iterable body =>
      rw [readings, List.mem_append] at h
      rcases h with hIterable | hBody
      · exact .inside (.head _) (names_of_mem_readingsOf hIterable)
      · exact .inside (.tail _ (.head _)) (names_of_mem_blockReadings body hBody)
  | element tag attributes content =>
      rw [readings] at h
      obtain ⟨item, hItem, hReading⟩ := List.mem_flatMap.mp h
      refine .inside hItem ?_
      cases item with
      | showStatement | declaration => exact .inside (.head _) (names_of_mem_readingsOf hReading)
      | _ => cases hReading
  | _ =>
      simp only [readings] at h
      cases h

/-- What is read at a place of a block is named in it. -/
theorem names_of_mem_blockReadings {visible earlier : List String} (block : Node) {r : Reading}
    (h : r ∈ blockReadings visible earlier block) : block.Names r.name := by
  cases block with
  | block statements | program statements =>
      rw [blockReadings] at h
      obtain ⟨s, hs, hNames⟩ := exists_names_of_mem_readingsAll statements h
      exact .inside hs hNames
  | _ =>
      simp only [blockReadings] at h
      cases h

/-- What is read at a place of some statements is named in one of them. -/
theorem exists_names_of_mem_readingsAll {visible earlier : List String} (statements : List Node)
    {r : Reading} (h : r ∈ readingsAll visible earlier statements) :
    ∃ s ∈ statements, s.Names r.name := by
  cases statements with
  | nil => cases h
  | cons s rest =>
      rw [readingsAll, List.mem_append] at h
      rcases h with hFirst | hRest
      · exact ⟨s, .head _, names_of_mem_readings s hFirst⟩
      · obtain ⟨t, ht, hNames⟩ := exists_names_of_mem_readingsAll rest hRest
        exact ⟨t, .tail _ ht, hNames⟩

end

/-! ### Names that are set -/

theorem mem_touches_of_writtenName? {s : Node} {name : String} (h : writtenName? s = some name) :
    name ∈ s.touches := by
  cases s with
  | declaration | forStatement =>
      cases h
      exact .head _
  | _ => cases h

/-- Statements change only those variables of their frame that one of them sets
itself. -/
theorem executeAll_writes (rounds : Nat) (statements : List Node) (m : Machine) {frame : Frame}
    {outer : List Frame} (h : m.frames = frame :: outer) :
    ∃ inner, (executeAll rounds statements m).1.frames = inner :: outer ∧
      ∀ name, (∀ s ∈ statements, writtenName? s ≠ some name) →
        inner.get? name = frame.get? name := by
  induction statements generalizing m frame with
  | nil =>
      rw [executeAll]
      exact ⟨frame, h, fun _ _ => rfl⟩
  | cons s rest ih =>
      obtain ⟨inner, hInner, hRewritten⟩ := execute_writes rounds s m frame outer h
      rw [executeAll_cons, followedBy]
      split
      · obtain ⟨last, hLast, hKept⟩ := ih _ hInner
        refine ⟨last, hLast, fun name hName => ?_⟩
        obtain ⟨hFirst, hOthers⟩ := List.forall_mem_cons.mp hName
        rw [hKept name hOthers, hRewritten.get?_eq hFirst]
      · exact ⟨inner, hInner, fun name hName => hRewritten.get?_eq (hName s (.head _))⟩

/-! ### Rounds that are allowed -/

/-- Where the first part of a script ends, the second one ends in the same
way. -/
def Prolonged (part longer : Machine → Machine × Status) : Prop :=
  ∀ m, (part m).2 ≠ .running → longer m = part m

theorem Prolonged.refl (part : Machine → Machine × Status) : Prolonged part part :=
  fun _ _ => rfl

section rounds

variable {body longer : Machine → Machine × Status}

theorem Prolonged.inside (h : Prolonged body longer) :
    Prolonged (fun m => m.inside body) fun m => m.inside longer := by
  intro m hEnds
  have hBody := h { m with frames := .empty :: m.frames } hEnds
  simp only [Machine.inside, hBody]

/-- The part that follows counts only if the first one ends normally. -/
theorem followedBy_prolonged {first first' : Machine × Status}
    (hFirst : first.2 ≠ .running → first' = first) (h : Prolonged body longer)
    (hEnds : (followedBy first body).2 ≠ .running) :
    followedBy first' longer = followedBy first body := by
  by_cases hDone : first.2 = .done
  · have hSame : first' = first := hFirst (by rw [hDone]; exact Status.noConfusion)
    rw [followedBy, if_pos hDone] at hEnds
    rw [followedBy, followedBy, hSame, if_pos hDone, if_pos hDone]
    exact h first.1 hEnds
  · rw [followedBy, if_neg hDone] at hEnds
    have hSame : first' = first := hFirst hEnds
    rw [followedBy, followedBy, hSame, if_neg hDone, if_neg hDone]

/-- In a loop over items, more rounds do not change what has ended, if this is
so for its body. -/
theorem Prolonged.forEach (h : Prolonged body longer) (name : String) (items : List Value) :
    Prolonged (forEach name body items) (forEach name longer items) := by
  induction items with
  | nil => exact .refl _
  | cons item rest ih =>
      intro m hEnds
      rw [forEach_cons] at hEnds
      rw [forEach_cons, forEach_cons]
      exact followedBy_prolonged (h _) ih hEnds

/-- A loop that ends within its rounds ends in the same way if more are
allowed, to it and to its body. -/
theorem Prolonged.repeatWhile (h : Prolonged body longer)
    (condition : Machine → Except Fault Value) {count further : Nat}
    (hCount : count ≤ further) :
    Prolonged (repeatWhile condition body count) (repeatWhile condition longer further) := by
  induction count generalizing further with
  | zero =>
      intro m hEnds
      cases hValue : condition m with
      | error fault => rw [repeatWhile_of_error hValue, repeatWhile_of_error hValue]
      | ok value =>
          cases hTruthy : value.truthy with
          | false => rw [repeatWhile_of_falsy hValue hTruthy, repeatWhile_of_falsy hValue hTruthy]
          | true =>
              rw [repeatWhile_zero hValue hTruthy] at hEnds
              exact absurd rfl hEnds
  | succ count ih =>
      obtain ⟨further, rfl⟩ : ∃ fewer, further = fewer + 1 := ⟨further - 1, by omega⟩
      intro m hEnds
      cases hValue : condition m with
      | error fault => rw [repeatWhile_of_error hValue, repeatWhile_of_error hValue]
      | ok value =>
          cases hTruthy : value.truthy with
          | false => rw [repeatWhile_of_falsy hValue hTruthy, repeatWhile_of_falsy hValue hTruthy]
          | true =>
              rw [repeatWhile_succ hValue hTruthy] at hEnds
              rw [repeatWhile_succ hValue hTruthy, repeatWhile_succ hValue hTruthy]
              exact followedBy_prolonged (h m) (ih (Nat.le_of_succ_le_succ hCount)) hEnds

/-- Which block a condition leads to, if any, is settled before a round is
taken. So the rounds that are allowed matter inside that block only. -/
theorem execute_ifStatement_choice (condition thenBlock elseBlock : Node) (m : Machine) :
    (∃ outcome, ∀ rounds, execute rounds (.ifStatement condition thenBlock elseBlock) m =
      outcome) ∨
    (∀ rounds, execute rounds (.ifStatement condition thenBlock elseBlock) m =
      m.inside (executeBlock rounds thenBlock)) ∨
    ∀ rounds, execute rounds (.ifStatement condition thenBlock elseBlock) m =
      m.inside (executeBlock rounds elseBlock) := by
  cases hValue : evaluate m.frames condition with
  | error fault =>
      refine .inl ⟨(m, .failed fault), fun rounds => ?_⟩
      cases elseBlock <;> simp only [execute, hValue]
  | ok value =>
      cases hTruthy : value.truthy with
      | true =>
          refine .inr (.inl fun rounds => ?_)
          cases elseBlock <;> simp only [execute, hValue, hTruthy, if_true]
      | false =>
          by_cases hMissing : elseBlock = .missing
          · subst hMissing
            refine .inl ⟨(m, .done), fun rounds => ?_⟩
            simp [execute, hValue, hTruthy]
          · refine .inr (.inr fun rounds => ?_)
            rw [execute, hValue]
            · simp [hTruthy]
            · exact hMissing

end rounds

mutual

/-- A statement that ends does so in the same way with more rounds allowed to
its loops. Loops are taken round by round: a loop that ends has not used up its
rounds. -/
theorem execute_prolonged {rounds more : Nat} (hMore : rounds ≤ more) (s : Node) :
    Prolonged (execute rounds s) (execute more s) := by
  cases s with
  | ifStatement condition thenBlock elseBlock =>
      intro m hEnds
      obtain ⟨outcome, hOutcome⟩ | hThen | hElse :=
        execute_ifStatement_choice condition thenBlock elseBlock m
      · rw [hOutcome, hOutcome]
      · rw [hThen] at hEnds
        rw [hThen, hThen]
        exact (executeBlock_prolonged hMore thenBlock).inside m hEnds
      · rw [hElse] at hEnds
        rw [hElse, hElse]
        exact (executeBlock_prolonged hMore elseBlock).inside m hEnds
  | whileStatement condition body =>
      have hBody : Prolonged (loopRound rounds body) (loopRound more body) :=
        (executeBlock_prolonged hMore body).inside
      intro m hEnds
      rw [execute_whileStatement] at hEnds
      rw [execute_whileStatement, execute_whileStatement]
      exact hBody.repeatWhile _ hMore m hEnds
  | forStatement iterator iterable body =>
      have hBody := (executeBlock_prolonged hMore body).inside
      intro m hEnds
      rw [execute] at hEnds
      rw [execute, execute]
      cases hValue : evaluate m.frames iterable with
      | error fault => rfl
      | ok value =>
          rw [hValue] at hEnds
          dsimp only at hEnds ⊢
          cases hItems : value.items? with
          | none => rfl
          | some items =>
              rw [hItems] at hEnds
              exact hBody.forEach iterator items m hEnds
  | returnStatement value =>
      intro m _
      cases value <;> simp only [execute]
  | _ =>
      intro m _
      simp only [execute]

/-- A block that ends within some rounds ends in the same way if more are
allowed. -/
theorem executeBlock_prolonged {rounds more : Nat} (hMore : rounds ≤ more) (block : Node) :
    Prolonged (executeBlock rounds block) (executeBlock more block) := by
  cases block with
  | block statements | program statements =>
      simp only [executeBlock]
      exact executeAll_prolonged hMore statements
  | _ =>
      intro m _
      simp only [executeBlock]

/-- Statements that end within some rounds end in the same way if more are
allowed. -/
theorem executeAll_prolonged {rounds more : Nat} (hMore : rounds ≤ more)
    (statements : List Node) :
    Prolonged (executeAll rounds statements) (executeAll more statements) := by
  cases statements with
  | nil =>
      intro m _
      simp only [executeAll]
  | cons s rest =>
      intro m hEnds
      rw [executeAll_cons] at hEnds
      rw [executeAll_cons, executeAll_cons]
      exact followedBy_prolonged (execute_prolonged hMore s m)
        (executeAll_prolonged hMore rest) hEnds

end

/-! ### Whole programs -/

/-- The program ends like this, with enough rounds allowed and with any number
beyond that. -/
def EndsAs (p : Node) (m after : Machine) (status : Status) : Prop :=
  ∃ enough, ∀ rounds, enough ≤ rounds → interpret rounds p m = (after, status)

/-- However many rounds are allowed, the program is still running after
them. -/
def RunsForever (p : Node) (m : Machine) : Prop :=
  ∀ rounds, (interpret rounds p m).2 = .running

/-- A program that ends within some rounds ends in the same way if more are
allowed. -/
theorem interpret_prolonged {rounds more : Nat} (hMore : rounds ≤ more) (p : Node) :
    Prolonged (interpret rounds p) (interpret more p) := by
  cases p with
  | program statements => exact executeAll_prolonged hMore statements
  | _ => exact .refl _

theorem endsAs_of_interpret {p : Node} {m : Machine} {rounds : Nat}
    (h : (interpret rounds p m).2 ≠ .running) :
    EndsAs p m (interpret rounds p m).1 (interpret rounds p m).2 :=
  ⟨rounds, fun _ hMore => interpret_prolonged hMore p m h⟩

/-- A program is uniform in the names that occur in it. -/
theorem interpret_uniform (rounds : Nat) (p : Node) : Uniform p.Names (interpret rounds p) := by
  cases p with
  | program statements =>
      have hReads : ReadsWithin (Node.program statements).Names (readingsAll [] [] statements) := by
        intro r hr
        obtain ⟨s, hs, hNames⟩ := exists_names_of_mem_readingsAll statements hr
        exact .inside hs hNames
      exact executeAll_uniform rounds statements hReads
  | _ => exact fun m n hFrames => .still hFrames _

/-- A program leaves alone every name of the global frame that does not occur
in it. -/
theorem interpret_writes (rounds : Nat) (p : Node) {m : Machine} {frame : Frame}
    (h : m.frames = [frame]) :
    ∃ after, (interpret rounds p m).1.frames = [after] ∧
      ∀ name, ¬ p.Names name → after.get? name = frame.get? name := by
  cases p with
  | program statements =>
      obtain ⟨after, hAfter, hKept⟩ := executeAll_writes rounds statements m h
      refine ⟨after, hAfter, fun name hName => hKept name fun s hs hWritten => hName ?_⟩
      exact .inside hs (.here (mem_touches_of_writtenName? hWritten))
  | _ => exact ⟨frame, h, fun _ _ => rfl⟩

/-- What two runs of a program have done to two machines with one global frame
each: they have printed and reported the same, the frames agree on the names of
the program, and each frame has all its other variables as before. -/
structure Confined (p : Node) (m n after after' : Machine) : Prop where
  printed : ∃ text, after.output = m.output ++ text ∧ after'.output = n.output ++ text
  reported : ∃ text, after.errors = m.errors ++ text ∧ after'.errors = n.errors ++ text
  frames : ∃ frame other frame' other', m.frames = [frame] ∧ n.frames = [other] ∧
    after.frames = [frame'] ∧ after'.frames = [other'] ∧
    (∀ name, p.Names name → frame'.get? name = other'.get? name) ∧
    ∀ name, ¬ p.Names name → frame'.get? name = frame.get? name ∧
      other'.get? name = other.get? name

/-- Two machines that agree on the names of a program run it side by side,
whatever number of rounds is allowed. -/
theorem interpret_side_by_side (p : Node) {m n : Machine} {frame other : Frame}
    (hFrame : m.frames = [frame]) (hOther : n.frames = [other])
    (hAgree : ∀ name, p.Names name → frame.get? name = other.get? name) (rounds : Nat) :
    (interpret rounds p m).2 = (interpret rounds p n).2 ∧
      Confined p m n (interpret rounds p m).1 (interpret rounds p n).1 := by
  have hSame : SameOn p.Names m.frames n.frames := by
    rw [hFrame, hOther]
    exact .cons hAgree .nil
  have hParallel := interpret_uniform rounds p m n hSame
  obtain ⟨frame', hFrame', hKept⟩ := interpret_writes rounds p hFrame
  obtain ⟨other', hOther', hKept'⟩ := interpret_writes rounds p hOther
  have hAfter := hParallel.frames
  rw [hFrame', hOther'] at hAfter
  refine ⟨hParallel.status_eq, hParallel.printed, hParallel.reported, frame, other, frame',
    other', hFrame, hOther, hFrame', hOther', ?_, fun name hName =>
    ⟨hKept name hName, hKept' name hName⟩⟩
  cases hAfter with
  | cons first _ => exact first

/-- From two machines whose global frames agree on the names that occur in a
program, with any other variables and any functions, the program completes on
both, or raises the same fault on both, or runs forever on both. It prints the
same on both, the frames agree on its names afterwards, and neither frame
changes in any other name. -/
theorem interpret_confined (p : Node) (m n : Machine) (frame other : Frame)
    (hFrame : m.frames = [frame]) (hOther : n.frames = [other])
    (hAgree : ∀ name, p.Names name → frame.get? name = other.get? name) :
    (∃ after after', EndsAs p m after .done ∧ EndsAs p n after' .done ∧
      Confined p m n after after') ∨
    (∃ fault after after', EndsAs p m after (.failed fault) ∧
      EndsAs p n after' (.failed fault) ∧
      Confined p m n after after') ∨
    (RunsForever p m ∧ RunsForever p n ∧
      ∀ rounds, Confined p m n (interpret rounds p m).1 (interpret rounds p n).1) := by
  have hBeside := interpret_side_by_side p hFrame hOther hAgree
  by_cases hEnds : ∃ rounds, (interpret rounds p m).2 ≠ .running
  · obtain ⟨rounds, hLeft⟩ := hEnds
    obtain ⟨hStatus, hConfined⟩ := hBeside rounds
    have hRight : (interpret rounds p n).2 ≠ .running := hStatus ▸ hLeft
    have hFirst := endsAs_of_interpret hLeft
    have hSecond := endsAs_of_interpret hRight
    rw [← hStatus] at hSecond
    cases hCase : (interpret rounds p m).2 with
    | done =>
        rw [hCase] at hFirst hSecond
        exact .inl ⟨_, _, hFirst, hSecond, hConfined⟩
    | failed fault =>
        rw [hCase] at hFirst hSecond
        exact .inr (.inl ⟨fault, _, _, hFirst, hSecond, hConfined⟩)
    | running => exact absurd hCase hLeft
  · have hForever : RunsForever p m :=
      fun rounds => Classical.not_not.mp fun hNot => hEnds ⟨rounds, hNot⟩
    exact .inr (.inr ⟨hForever, fun rounds => (hBeside rounds).1 ▸ hForever rounds,
      fun rounds => (hBeside rounds).2⟩)

/-- Shows the characters of a word one by one. -/
def wordLoop : Node :=
  .program [.forStatement "c" (.identifier "word") (.block [.showStatement (.identifier "c")])]

/-- A machine with a word in its global frame, beside a key that the loop does
not name. -/
def keyedMachine (key : Value) (functions : Table Node) (output : String) : Machine :=
  ⟨[⟨[("word", .text "ab"), ("key", key)]⟩], functions, output, ""⟩

theorem interpret_wordLoop (rounds : Nat) (key : Value) (functions : Table Node) (output : String) :
    (interpret rounds wordLoop (keyedMachine key functions output)).2 = .done :=
  rfl

/-- The loop names the word and its own variable, and nothing else. -/
theorem names_wordLoop {name : String} (h : wordLoop.Names name) :
    name = "c" ∨ name = "word" := by
  have hLeaf {other : String} (h : (Node.identifier other).Names name) : name = other := by
    rcases Node.holds_iff.mp h with hOwn | ⟨_, hNone, _⟩
    · exact List.mem_singleton.mp hOwn
    · cases hNone
  rcases Node.holds_iff.mp h with hOwn | ⟨_, _ | ⟨_, hNone⟩, hLoop⟩
  · cases hOwn
  · rcases Node.holds_iff.mp hLoop with hOwn | ⟨_, _ | ⟨_, _ | ⟨_, hNone⟩⟩, hPart⟩
    · exact .inl (List.mem_singleton.mp hOwn)
    · exact .inr (hLeaf hPart)
    · rcases Node.holds_iff.mp hPart with hOwn | ⟨_, _ | ⟨_, hNone⟩, hShow⟩
      · cases hOwn
      · rcases Node.holds_iff.mp hShow with hOwn | ⟨_, _ | ⟨_, hNone⟩, hShown⟩
        · cases hOwn
        · exact .inl (hLeaf hShown)
        · cases hNone
      · cases hNone
    · cases hNone
  · cases hNone

/-- The loop ends in the same way whatever the key is. -/
theorem wordLoop_confined :
    ∃ after after', EndsAs wordLoop (keyedMachine (.int 1) .empty "") after .done ∧
      EndsAs wordLoop (keyedMachine (.text "x") ⟨[("c", wordLoop)]⟩ "> ") after' .done ∧
      Confined wordLoop (keyedMachine (.int 1) .empty "")
        (keyedMachine (.text "x") ⟨[("c", wordLoop)]⟩ "> ")
        after after' := by
  have hAgree : ∀ name, wordLoop.Names name →
      Table.get? ⟨[("word", Value.text "ab"), ("key", .int 1)]⟩ name =
        Table.get? ⟨[("word", Value.text "ab"), ("key", .text "x")]⟩ name := by
    intro name hName
    rcases names_wordLoop hName with rfl | rfl <;> rfl
  obtain hDone | ⟨fault, after, _, ⟨enough, hEnough⟩, -, -⟩ | ⟨hForever, -, -⟩ :=
    interpret_confined wordLoop (keyedMachine (.int 1) .empty "")
      (keyedMachine (.text "x") ⟨[("c", wordLoop)]⟩ "> ") _ _ rfl rfl hAgree
  · exact hDone
  · have hEnd := interpret_wordLoop enough (.int 1) .empty ""
    rw [hEnough enough (Nat.le_refl _)] at hEnd
    cases hEnd
  · cases (hForever 0).symm.trans (interpret_wordLoop 0 (.int 1) .empty "")

end Run

end PageScript
