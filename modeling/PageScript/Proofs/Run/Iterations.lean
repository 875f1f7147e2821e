import PageScript.Proofs.Run.Agreement

/-! Loops over items. Every round starts from the frame that the loop was
entered with, the loop's own name set to the next item and all else as it was.
Main statement: a loop comes to what its rounds come to one by one, up to the
first that does not end normally. -/
namespace PageScript.Run

/-- The body of a loop run by itself for one item: in a new frame, with a
console of its own. -/
def roundAlone (rounds : Nat) (iterator : String) (body : Node) (frame : Frame) (outer : List Frame)
    (declared : Table Node) (item : Value) : Machine × Status :=
  executeBlock rounds body ⟨.empty :: frame.set iterator item :: outer, declared, "", ""⟩

/-- What these rounds leave on one side of the console, each by itself, one
after the other. -/
def written (console : Machine → String) (alone : Value → Machine × Status)
    (items : List Value) : String :=
  String.join (items.map fun item => console (alone item).1)

theorem written_cons (console : Machine → String) (alone : Value → Machine × Status)
    (item : Value) (rest : List Value) :
    written console alone (item :: rest) = console (alone item).1 ++ written console alone rest :=
  String.join_cons

/-- The frame of a loop after rounds for these items: as before if there are
none, and otherwise with the name of the loop set to the last one. -/
def boundLast (iterator : String) (frame : Frame) (items : List Value) : Frame :=
  items.getLast?.elim frame (frame.set iterator)

/-- Setting the name of a loop to an item makes no difference if there are
items behind it. -/
theorem boundLast_cons (iterator : String) (frame : Frame) (item : Value) (rest : List Value) :
    boundLast iterator frame (item :: rest) =
      boundLast iterator (frame.set iterator item) rest := by
  rw [boundLast, boundLast, List.getLast?_cons]
  cases rest.getLast? with
  | none => rfl
  | some last => exact (frame.set_set iterator item last).symm

section alone

variable {rounds : Nat} {iterator : String} {body : Node} {frame : Frame} {outer : List Frame}
    {declared : Table Node}

/-- A round does not see what the name of the loop was set to before. -/
theorem roundAlone_set (previous : Value) :
    roundAlone rounds iterator body (frame.set iterator previous) outer declared =
      roundAlone rounds iterator body frame outer declared := by
  funext item
  rw [roundAlone, roundAlone, Table.set_set]

/-- From a machine, a round ends, prints and reports as it does by itself. -/
structure RoundOf (alone : Machine × Status) (m : Machine) (result : Machine × Status) :
    Prop where
  status_eq : result.2 = alone.2
  output_eq : result.1.output = m.output ++ alone.1.output
  errors_eq : result.1.errors = m.errors ++ alone.1.errors

/-- A round of the loop ends, prints and reports as the body does by itself for
this item. -/
theorem roundOf_loopRound {m : Machine} (h : m.frames = frame :: outer) (item : Value) :
    RoundOf (roundAlone rounds iterator body frame outer declared item) m
      (loopRound rounds body (m.assign iterator item)) := by
  have hConsole := m.assign_console iterator item
  have hBound := m.assign_frames h iterator item
  have hReads : ReadsWithin (fun _ => True) (blockReadings [] [] body) := fun _ _ => trivial
  have hSides := executeBlock_uniform rounds body hReads
    { m.assign iterator item with frames := .empty :: (m.assign iterator item).frames }
    ⟨.empty :: frame.set iterator item :: outer, declared, "", ""⟩ (hBound ▸ .refl _)
  obtain ⟨text, hText, hAlone⟩ := hSides.printed
  obtain ⟨report, hReport, hAlone'⟩ := hSides.reported
  rw [String.empty_append] at hAlone hAlone'
  refine ⟨hSides.status_eq, ?_, ?_⟩
  · rw [roundAlone, hAlone, ← hConsole.1]
    exact hText
  · rw [roundAlone, hAlone', ← hConsole.2]
    exact hReport

end alone

/-- What a loop over these items comes to from a machine, told by what its
rounds come to by themselves: all of them end normally, or one of them is the
first that does not. -/
inductive Iterated (alone : Value → Machine × Status) (iterator : String) (frame : Frame)
    (outer : List Frame) (m : Machine) (items : List Value) : Machine × Status → Prop where
  | finished {after : Machine} (done : ∀ item ∈ items, (alone item).2 = .done)
      (frames : after.frames = boundLast iterator frame items :: outer)
      (output : after.output = m.output ++ written Machine.output alone items)
      (errors : after.errors = m.errors ++ written Machine.errors alone items) :
      Iterated alone iterator frame outer m items (after, .done)
  | stopped {front rest : List Value} {item : Value} {result : Machine × Status}
      (reached : items = front ++ item :: rest)
      (done : ∀ earlier ∈ front, (alone earlier).2 = .done)
      (abrupt : (alone item).2 ≠ .done) (status : result.2 = (alone item).2)
      (frames : result.1.frames = frame.set iterator item :: outer)
      (output : result.1.output = m.output ++ written Machine.output alone front ++
        (alone item).1.output)
      (errors : result.1.errors = m.errors ++ written Machine.errors alone front ++
        (alone item).1.errors) :
      Iterated alone iterator frame outer m items result

section iterated

variable {alone : Value → Machine × Status} {iterator : String} {frame : Frame}
    {outer : List Frame}

/-- One more round in front of a loop, which has ended normally: what it prints
comes first, and its item is forgotten if others follow. -/
theorem Iterated.after_round {m : Machine} {item : Value} {rest : List Value}
    {first result : Machine × Status} (hDone : (alone item).2 = .done)
    (hFirst : RoundOf (alone item) m first)
    (h : Iterated alone iterator (frame.set iterator item) outer first.1 rest result) :
    Iterated alone iterator frame outer m (item :: rest) result := by
  have hAll : ∀ {items : List Value}, (∀ other ∈ items, (alone other).2 = .done) →
      ∀ other ∈ item :: items, (alone other).2 = .done :=
    fun hItems => List.forall_mem_cons.mpr ⟨hDone, hItems⟩
  have hOutput : ∀ items, m.output ++ written Machine.output alone (item :: items) =
      first.1.output ++ written Machine.output alone items := by
    intro items
    rw [hFirst.output_eq, written_cons, String.append_assoc]
  have hErrors : ∀ items, m.errors ++ written Machine.errors alone (item :: items) =
      first.1.errors ++ written Machine.errors alone items := by
    intro items
    rw [hFirst.errors_eq, written_cons, String.append_assoc]
  cases h with
  | finished done frames output errors =>
      refine .finished (hAll done) ?_ ?_ ?_
      · rw [frames, boundLast_cons]
      · rw [output, hOutput]
      · rw [errors, hErrors]
  | @stopped front after last _ reached done abrupt status frames output errors =>
      have hReached : item :: rest = (item :: front) ++ last :: after := by
        rw [reached, List.cons_append]
      refine .stopped hReached (hAll done) abrupt status ?_ ?_ ?_
      · rw [frames, Table.set_set]
      · rw [output, hOutput]
      · rw [errors, hErrors]

end iterated

/-- The induction is on the items. After each round the frame is again the one
that the loop was entered with, but for the name of the loop, which the next
round sets anew. -/
theorem forEach_iterated (rounds : Nat) (iterator : String) (body : Node) (declared : Table Node)
    (items : List Value) {m : Machine} {frame : Frame} {outer : List Frame}
    (h : m.frames = frame :: outer) :
    Iterated (roundAlone rounds iterator body frame outer declared) iterator frame outer m items
      (forEach iterator (loopRound rounds body) items m) := by
  induction items generalizing m frame with
  | nil => exact .finished (List.forall_mem_nil _) h (by simp [written]) (by simp [written])
  | cons item rest ih =>
      have hRound : RoundOf (roundAlone rounds iterator body frame outer declared item) m _ :=
        roundOf_loopRound h item
      have hKept := loopRound_keepsFrames rounds body (m.assign iterator item)
      have hFrames := hKept.trans (m.assign_frames h iterator item)
      rw [forEach_cons, followedBy]
      split
      · rename_i hDone
        have hRest := ih hFrames
        rw [roundAlone_set] at hRest
        exact hRest.after_round (hRound.status_eq ▸ hDone) hRound
      · rename_i hDone
        refine .stopped (List.nil_append _).symm (List.forall_mem_nil _) ?_ hRound.status_eq
          hFrames ?_ ?_
        · exact hRound.status_eq ▸ hDone
        · rw [hRound.output_eq, written, List.map_nil, String.join_nil, String.append_empty]
        · rw [hRound.errors_eq, written, List.map_nil, String.join_nil, String.append_empty]

/-- A loop over something that has items runs its body for each of them. -/
theorem execute_forStatement {rounds : Nat} {iterator : String} {iterable body : Node} {m : Machine}
    {value : Value} {items : List Value} (hValue : evaluate m.frames iterable = .ok value)
    (hItems : value.items? = some items) :
    execute rounds (.forStatement iterator iterable body) m =
      forEach iterator (loopRound rounds body) items m := by
  rw [execute, hValue]
  dsimp only
  rw [hItems]
  rfl

/-- A loop over items decomposes into rounds that know nothing of each other.
If it ends normally, each of its rounds does so by itself, the loop prints and
reports what the rounds do one after the other, and the frame is as before but
for the name of the loop, which is bound to the last item. If it does not,
there is a first item whose round does not end normally by itself: the loop
ends in the same way, after what the rounds before print and what this one
prints up to then, and the name is bound to that item. -/
theorem forStatement_decomposes (rounds : Nat) (iterator : String) (iterable body : Node)
    (frame : Frame) (outer : List Frame) (functions declared : Table Node) (output errors : String)
    (value : Value) (items : List Value) (hValue : evaluate (frame :: outer) iterable = .ok value)
    (hItems : value.items? = some items) :
    let alone := roundAlone rounds iterator body frame outer declared
    let result := execute rounds (.forStatement iterator iterable body)
      ⟨frame :: outer, functions, output, errors⟩
    (result.2 = .done → (∀ item ∈ items, (alone item).2 = .done) ∧
      result.1.frames = boundLast iterator frame items :: outer ∧
      result.1.output = output ++ written Machine.output alone items ∧
      result.1.errors = errors ++ written Machine.errors alone items) ∧
    (result.2 ≠ .done → ∃ front item rest, items = front ++ item :: rest ∧
      (∀ earlier ∈ front, (alone earlier).2 = .done) ∧ (alone item).2 = result.2 ∧
      result.1.frames = frame.set iterator item :: outer ∧
      result.1.output = output ++ written Machine.output alone front ++ (alone item).1.output ∧
      result.1.errors = errors ++ written Machine.errors alone front ++ (alone item).1.errors) := by
  intro alone result
  have hIterated : Iterated alone iterator frame outer
      ⟨frame :: outer, functions, output, errors⟩ items result := by
    have hRun : result = _ := execute_forStatement hValue hItems
    rw [hRun]
    exact forEach_iterated rounds iterator body declared items rfl
  clear_value result
  cases hIterated with
  | finished done frames output errors =>
      exact ⟨fun _ => ⟨done, frames, output, errors⟩, fun hStopped => absurd rfl hStopped⟩
  | stopped reached done abrupt status frames output errors =>
      refine ⟨fun hDone => absurd (status.symm.trans hDone) abrupt, fun _ => ?_⟩
      exact ⟨_, _, _, reached, done, status.symm, frames, output, errors⟩

/-- A body that sets the name of its loop and runs an inner loop under that
name. -/
def rebindingBody : Node :=
  .block [.showStatement (.identifier "c"),
    .declaration "c" none (.binary (.identifier "c") "+" (.number (.int 1))) false,
    .forStatement "c" (.string "xy") (.block [.showStatement (.identifier "c")])]

def mixedItems : List Value := [.int 1, .text "b", .int 3]

def itemsFrame : Frame :=
  ⟨[("c", .bool true), ("xs", .list [.int 1, .int 2]), ("ys", .list mixedItems)]⟩

/-- Over two numbers the loop ends normally. Over a number and a text it fails
in the second round, and the third is never begun. -/
theorem forStatement_decomposes_rebinding :
    let alone := roundAlone 0 "c" rebindingBody itemsFrame [] .empty
    let whole := execute 0 (.forStatement "c" (.identifier "xs") rebindingBody)
      ⟨[itemsFrame], .empty, "> ", ""⟩
    let broken := execute 0 (.forStatement "c" (.identifier "ys") rebindingBody)
      ⟨[itemsFrame], .empty, "> ", ""⟩
    (evaluate [itemsFrame] (.identifier "xs") = .ok (.list [.int 1, .int 2]) ∧ whole.2 = .done ∧
      whole.1.frames = [itemsFrame.set "c" (.int 2)] ∧
        whole.1.output = "> 1\nx\ny\n2\nx\ny\n") ∧
    (evaluate [itemsFrame] (.identifier "ys") = .ok (.list mixedItems) ∧ broken.2 ≠ .done ∧
      ∃ front item rest, mixedItems = front ++ item :: rest ∧ (alone item).2 = broken.2 ∧
        broken.1.frames = [itemsFrame.set "c" item] ∧
        broken.1.output = "> " ++ written Machine.output alone front ++ (alone item).1.output) := by
  have hNumbers : evaluate [itemsFrame] (.identifier "xs") = .ok (.list [.int 1, .int 2]) := rfl
  have hMixed : evaluate [itemsFrame] (.identifier "ys") = .ok (.list mixedItems) := rfl
  have hWhole : (execute 0 (.forStatement "c" (.identifier "xs") rebindingBody)
      ⟨[itemsFrame], .empty, "> ", ""⟩).2 = .done := by decide +kernel
  have hBroken : (execute 0 (.forStatement "c" (.identifier "ys") rebindingBody)
      ⟨[itemsFrame], .empty, "> ", ""⟩).2 ≠ .done := by decide +kernel
  have hPrints : "> " ++ written Machine.output
      (roundAlone 0 "c" rebindingBody itemsFrame [] .empty) [.int 1, .int 2] =
      "> 1\nx\ny\n2\nx\ny\n" := by decide +kernel
  obtain ⟨-, hFrames, hOutput, -⟩ :=
    (forStatement_decomposes 0 "c" (.identifier "xs") rebindingBody itemsFrame []
    .empty .empty "> " "" _ _ hNumbers rfl).1 hWhole
  obtain ⟨front, item, rest, hItems, -, hStatus, hBound, hPrinted, -⟩ :=
    (forStatement_decomposes 0 "c"
    (.identifier "ys") rebindingBody itemsFrame [] .empty .empty "> " "" _ _ hMixed rfl).2 hBroken
  exact ⟨⟨hNumbers, hWhole, hFrames, hOutput.trans hPrints⟩, hMixed, hBroken, front, item,
    rest, hItems, hStatus, hBound, hPrinted⟩

end PageScript.Run
