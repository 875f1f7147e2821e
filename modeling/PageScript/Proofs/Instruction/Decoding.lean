import PageScript.Proofs.Instruction.Lowering

/-! Reading a script back from its instructions. A reader takes one instruction
at a time and keeps a stack of the blocks that are open; a block is closed by a
bracket of its own kind. Main statement: what is read back is the script that
was lowered, without its two kinds of flags. A script inside a script leaves no
trace in the instructions, so it is read back dissolved. -/
namespace PageScript.Instruction

open Progress

/-- What an open block belongs to, with all that has been read of it. -/
inductive Opening where
  | function (name : String) (parameters : List Parameter) (result : Option Ty)
  | thenBranch (condition : Node)
  | elseBranch (condition : Node) (thenStatements : List Node)
  | loop (condition : Node)
  | forEach (iterator : String) (iterable : Node)

/-- The statement that a bracket makes of an open block with these statements,
if it is the bracket that closes it. -/
def Opening.closed? (statements : List Node) : Opening → Instruction → Option Node
  | function name parameters result, functionEnd closing =>
    if closing = name then some (.functionDeclaration name parameters result (.block statements)
      false) else none
  | thenBranch condition, ifEnd => some (.ifStatement condition (.block statements) .missing)
  | elseBranch condition thenStatements, ifEnd =>
    some (.ifStatement condition (.block thenStatements) (.block statements))
  | loop condition, whileEnd => some (.whileStatement condition (.block statements))
  | forEach iterator iterable, forEnd => some (.forStatement iterator iterable (.block statements))
  | _, _ => none

/-- An open block, and the statements that stand before it. -/
structure OpenBlock where
  opening : Opening
  before : List Node

/-- The statements read so far of the innermost block, and the open blocks,
innermost first. -/
structure Reader where
  statements : List Node
  blocks : List OpenBlock

namespace Reader

def start : Reader := ⟨[], []⟩

/-- Statements that follow in the same block. -/
def gather (r : Reader) (more : List Node) : Reader :=
  { r with statements := r.statements ++ more }

def enter (r : Reader) (opening : Opening) : Reader :=
  ⟨[], ⟨opening, r.statements⟩ :: r.blocks⟩

def leave (r : Reader) (closing : Instruction) : Option Reader :=
  match r.blocks with
  | block :: outer =>
    (block.opening.closed? r.statements closing).map fun s => ⟨block.before ++ [s], outer⟩
  | [] => none

/-- Go over from a branch to its alternative. -/
def turn (r : Reader) : Option Reader :=
  match r.blocks with
  | ⟨.thenBranch condition, before⟩ :: outer =>
    some ⟨[], ⟨.elseBranch condition r.statements, before⟩ :: outer⟩
  | _ => none

/-- Take one instruction. -/
def step (r : Reader) : Instruction → Option Reader
  | declare name type value => some (r.gather [.declaration name type value false])
  | returnValue value => some (r.gather [.returnStatement value])
  | showValue value => some (r.gather [.showStatement value])
  | functionStart name parameters result => some (r.enter (.function name parameters result))
  | ifStart condition => some (r.enter (.thenBranch condition))
  | whileStart condition => some (r.enter (.loop condition))
  | forStart iterator iterable => some (r.enter (.forEach iterator iterable))
  | elseStart => r.turn
  | closing => r.leave closing

/-- Take several instructions, up to the first that does not fit. -/
def read (r : Reader) : List Instruction → Option Reader
  | [] => some r
  | i :: rest => (r.step i).bind fun next => next.read rest

end Reader

/-- The statements that instructions stand for, if all their brackets fit. -/
def decode (is : List Instruction) : Option (List Node) :=
  match Reader.start.read is with
  | some ⟨statements, []⟩ => some statements
  | _ => none

mutual

/-- A statement without the flags that its instructions do not carry. -/
def unflagged : Node → Node
  | .program statements => .program (unflaggedAll statements)
  | .declaration name type value _ => .declaration name type value false
  | .functionDeclaration name parameters result body _ =>
    .functionDeclaration name parameters result (unflaggedBlock body) false
  | .ifStatement condition thenBlock elseBlock =>
    .ifStatement condition (unflaggedBlock thenBlock) (unflaggedBlock elseBlock)
  | .whileStatement condition body => .whileStatement condition (unflaggedBlock body)
  | .forStatement iterator iterable body => .forStatement iterator iterable (unflaggedBlock body)
  | n => n

def unflaggedBlock : Node → Node
  | .block statements => .block (unflaggedAll statements)
  | .program statements => .program (unflaggedAll statements)
  | n => n

def unflaggedAll : List Node → List Node
  | [] => []
  | s :: rest => unflagged s :: unflaggedAll rest

end

mutual

/-- The statements that a statement leaves behind once it is lowered: without
flags, and with every script inside it dissolved. -/
def dissolved : Node → List Node
  | .program statements => dissolvedAll statements
  | .declaration name type value _ => [.declaration name type value false]
  | .functionDeclaration name parameters result body _ =>
    [.functionDeclaration name parameters result (dissolvedBlock body) false]
  | .ifStatement condition thenBlock elseBlock =>
    [.ifStatement condition (dissolvedBlock thenBlock) (dissolvedBlock elseBlock)]
  | .whileStatement condition body => [.whileStatement condition (dissolvedBlock body)]
  | .forStatement iterator iterable body => [.forStatement iterator iterable (dissolvedBlock body)]
  | n => [n]

def dissolvedBlock : Node → Node
  | .block statements => .block (dissolvedAll statements)
  | .program statements => .block (dissolvedAll statements)
  | n => n

def dissolvedAll : List Node → List Node
  | [] => []
  | s :: rest => dissolved s ++ dissolvedAll rest

end

mutual

/-- No script stands among the statements or in the place of a block. -/
def holdsNoScript : Node → Bool
  | .program _ => false
  | .functionDeclaration _ _ _ body _ => blockHoldsNoScript body
  | .ifStatement _ thenBlock elseBlock =>
    blockHoldsNoScript thenBlock && blockHoldsNoScript elseBlock
  | .whileStatement _ body => blockHoldsNoScript body
  | .forStatement _ _ body => blockHoldsNoScript body
  | _ => true

def blockHoldsNoScript : Node → Bool
  | .block statements => allHoldNoScript statements
  | .program _ => false
  | _ => true

def allHoldNoScript : List Node → Bool
  | [] => true
  | s :: rest => holdsNoScript s && allHoldNoScript rest

end

mutual

/-- Without scripts inside it, a statement only loses its flags. -/
theorem dissolved_eq (s : Node) (h : holdsNoScript s = true) : dissolved s = [unflagged s] := by
  cases s with
  | program statements => cases h
  | functionDeclaration name parameters result body async =>
      rw [holdsNoScript] at h
      rw [dissolved, unflagged, dissolvedBlock_eq body h]
  | ifStatement condition thenBlock elseBlock =>
      rw [holdsNoScript, Bool.and_eq_true] at h
      rw [dissolved, unflagged, dissolvedBlock_eq thenBlock h.1, dissolvedBlock_eq elseBlock h.2]
  | whileStatement condition body =>
      rw [holdsNoScript] at h
      rw [dissolved, unflagged, dissolvedBlock_eq body h]
  | forStatement iterator iterable body =>
      rw [holdsNoScript] at h
      rw [dissolved, unflagged, dissolvedBlock_eq body h]
  | _ => simp only [dissolved, unflagged]

theorem dissolvedBlock_eq (block : Node) (h : blockHoldsNoScript block = true) :
    dissolvedBlock block = unflaggedBlock block := by
  cases block with
  | block statements =>
      rw [blockHoldsNoScript] at h
      rw [dissolvedBlock, unflaggedBlock, dissolvedAll_eq statements h]
  | program statements => cases h
  | _ => simp only [dissolvedBlock, unflaggedBlock]

theorem dissolvedAll_eq (statements : List Node) (h : allHoldNoScript statements = true) :
    dissolvedAll statements = unflaggedAll statements := by
  cases statements with
  | nil => rw [dissolvedAll, unflaggedAll]
  | cons s rest =>
      rw [allHoldNoScript, Bool.and_eq_true] at h
      rw [dissolvedAll, unflaggedAll, dissolved_eq s h.1, dissolvedAll_eq rest h.2]
      rfl

end

namespace Reader

variable (r : Reader)

theorem gather_nil : r.gather [] = r := by
  simp [gather]

theorem gather_gather (first others : List Node) :
    (r.gather first).gather others = r.gather (first ++ others) := by
  simp [gather]

/-- Instructions in a row are read one part after the other. -/
theorem read_append (is js : List Instruction) :
    r.read (is ++ js) = (r.read is).bind fun next => next.read js := by
  induction is generalizing r with
  | nil => rfl
  | cons i rest ih =>
      rw [List.cons_append, read, read]
      cases r.step i with
      | none => rfl
      | some next => exact ih next

theorem read_cons (i : Instruction) (rest : List Instruction) :
    r.read (i :: rest) = (r.step i).bind fun next => next.read rest :=
  rfl

theorem read_singleton (i : Instruction) : r.read [i] = r.step i := by
  rw [read]
  cases r.step i <;> rfl

/-- A block that was entered and filled is closed by a bracket of its own kind,
and becomes a statement where it was entered. -/
theorem leave_gather {opening : Opening} {statements : List Node} {closing : Instruction} {s : Node}
    (hClosed : opening.closed? statements closing = some s) :
    ((r.enter opening).gather statements).leave closing = some (r.gather [s]) := by
  simp [leave, gather, enter, hClosed]

/-- The alternative of a branch keeps the statements of the branch. -/
theorem turn_gather (condition : Node) (statements : List Node) :
    ((r.enter (.thenBranch condition)).gather statements).turn =
      some (r.enter (.elseBranch condition statements)) :=
  rfl

/-- A block is read back as the statement that its closing bracket makes of
it. -/
theorem read_bracket {opening : Opening} {is : List Instruction} {statements : List Node}
    {closing : Instruction} {s : Node}
    (hInside : (r.enter opening).read is = some ((r.enter opening).gather statements))
    (hStep : ∀ r : Reader, r.step closing = r.leave closing)
    (hClosed : opening.closed? statements closing = some s) :
    (r.enter opening).read (is ++ [closing]) = some (r.gather [s]) := by
  rw [read_append, hInside, Option.bind_some, read_singleton, hStep, r.leave_gather hClosed]

end Reader

mutual

/-- Reading the instructions of a statement adds what the statement leaves
behind to the innermost block, and leaves all other blocks as they are. -/
theorem read_lower (s : Node) {is : List Instruction} (h : lower s = ⟨is, none⟩) (r : Reader) :
    r.read is = some (r.gather (dissolved s)) := by
  cases s with
  | program statements =>
      cases lowers_of_lower h with
      | program all =>
          rw [dissolved]
          exact read_lowerAll statements all r
  | declaration name type value constant =>
      cases lowers_of_lower h
      rw [Reader.read_singleton, dissolved]
      rfl
  | functionDeclaration name parameters result body async =>
      cases lowers_of_lower h with
      | function inside =>
          obtain ⟨statements, hBlock, hInside⟩ := read_lowerBlock body inside
          rw [dissolved, hBlock]
          exact r.read_bracket (hInside _) (fun _ => rfl) (if_pos rfl)
  | returnStatement value =>
      cases lowers_of_lower h
      rw [Reader.read_singleton, dissolved]
      · rfl
      all_goals simp
  | showStatement value =>
      cases lowers_of_lower h
      rw [Reader.read_singleton, dissolved]
      · rfl
      all_goals simp
  | ifStatement condition thenBlock elseBlock =>
      cases lowers_of_lower h with
      | branch inside =>
          obtain ⟨statements, hBlock, hInside⟩ := read_lowerBlock thenBlock inside
          rw [dissolved, hBlock]
          exact r.read_bracket (hInside _) (fun _ => rfl) rfl
      | branches inside otherwise =>
          obtain ⟨statements, hThen, hInside⟩ := read_lowerBlock thenBlock inside
          obtain ⟨others, hElse, hOtherwise⟩ := read_lowerBlock elseBlock otherwise
          rw [dissolved, hThen, hElse, Reader.read_cons, Reader.step, Option.bind_some,
            Reader.read_append, hInside, Option.bind_some, Reader.read_cons, Reader.step,
            Reader.turn_gather, Option.bind_some]
          exact r.read_bracket (hOtherwise _) (fun _ => rfl) rfl
  | whileStatement condition body =>
      cases lowers_of_lower h with
      | loop inside =>
          obtain ⟨statements, hBlock, hInside⟩ := read_lowerBlock body inside
          rw [dissolved, hBlock]
          exact r.read_bracket (hInside _) (fun _ => rfl) rfl
  | forStatement iterator iterable body =>
      cases lowers_of_lower h with
      | forEach inside =>
          obtain ⟨statements, hBlock, hInside⟩ := read_lowerBlock body inside
          rw [dissolved, hBlock]
          exact r.read_bracket (hInside _) (fun _ => rfl) rfl
  | _ => cases lowers_of_lower h

/-- Whatever has been read before it, a lowered block is read as the statements
of the block. -/
theorem read_lowerBlock (block : Node) {is : List Instruction}
    (h : lowerBlock block = ⟨is, none⟩) :
    ∃ statements, dissolvedBlock block = .block statements ∧
      ∀ r : Reader, r.read is = some (r.gather statements) := by
  cases block with
  | block statements =>
      rw [lowerBlock] at h
      exact ⟨_, by rw [dissolvedBlock], read_lowerAll statements h⟩
  | program statements =>
      rw [lowerBlock] at h
      exact ⟨_, by rw [dissolvedBlock], read_lowerAll statements h⟩
  | _ => simp [lowerBlock] at h

/-- Whatever has been read before them, lowered statements are read as
themselves, without their flags and with the scripts among them dissolved. -/
theorem read_lowerAll (statements : List Node) {is : List Instruction}
    (h : lowerAll statements = ⟨is, none⟩) (r : Reader) :
    r.read is = some (r.gather (dissolvedAll statements)) := by
  cases statements with
  | nil =>
      rw [lowerAll, nothing_eq_iff] at h
      subst h
      rw [dissolvedAll, r.gather_nil, Reader.read]
  | cons s rest =>
      obtain ⟨first, others, hFirst, hOthers, rfl⟩ := lowerAll_cons_iff.mp h
      rw [r.read_append, read_lower s hFirst r, Option.bind_some, read_lowerAll rest hOthers,
        r.gather_gather, dissolvedAll]

end

/-- Statements that are lowered are read back from their instructions. -/
theorem decode_of_lowerAll {statements : List Node} {is : List Instruction}
    (h : lowerAll statements = ⟨is, none⟩) : decode is = some (dissolvedAll statements) := by
  rw [decode, read_lowerAll statements h]
  rfl

/-- An alternative without statements leaves a bracket of its own behind. -/
theorem lower_empty_alternative_ne (condition : Node) {thenBlock : Node}
    (h : (lowerBlock thenBlock).fault = none) :
    (lower (.ifStatement condition thenBlock (.block []))).produced ≠
      (lower (.ifStatement condition thenBlock .missing)).produced := by
  have hThen := eq_of_fault h
  have hElse : lowerBlock (.block []) = ⟨[], none⟩ := by
    rw [lowerBlock, lowerAll, nothing_eq_iff]
  rw [lower_of_lowers (.branches hThen hElse), lower_of_lowers (.branch hThen)]
  intro hEqual
  simpa using congrArg List.length hEqual

/-- A script that is lowered is read back from its instructions, whatever its
statements are and however they are nested. What is lost are the flags of
constants and of asynchronous functions, and the bounds of a script that stands
inside another. The brackets are properly nested, and an alternative without
statements is told apart from none. -/
theorem decode_lower (statements : List Node) (h : (lower (.program statements)).fault = none) :
    (allHoldNoScript statements = true →
      decode (lower (.program statements)).produced = some (unflaggedAll statements)) ∧
    decode (lower (.program statements)).produced = some (dissolvedAll statements) ∧
    Nested (lower (.program statements)).produced ∧
    ∀ condition thenBlock, (lowerBlock thenBlock).fault = none →
      (lower (.ifStatement condition thenBlock (.block []))).produced ≠
        (lower (.ifStatement condition thenBlock .missing)).produced := by
  have hLower := eq_of_fault h
  have hDecode : decode (lower (.program statements)).produced =
      some (dissolvedAll statements) := by
    refine decode_of_lowerAll ?_
    rwa [lower] at hLower ⊢
  refine ⟨fun hScripts => ?_, hDecode, nested_of_lower _ hLower,
    fun _ _ => lower_empty_alternative_ne _⟩
  rw [hDecode, dissolvedAll_eq statements hScripts]

/-- A constant, and a function with a branch whose alternative is empty. -/
theorem decode_lower_flags :
    let body : List Node := [
      .ifStatement (.identifier "b") (.block [.returnStatement (.number (.int 1))]) (.block []),
      .returnStatement .missing]
    let statements : List Node := [
      .declaration "k" (some .int) (.number (.int 2)) true,
      .functionDeclaration "f" [⟨"b", some .bool⟩] none (.block body) true]
    (lower (.program statements)).fault = none ∧ allHoldNoScript statements = true ∧
      decode (lower (.program statements)).produced = some [
        .declaration "k" (some .int) (.number (.int 2)) false,
        .functionDeclaration "f" [⟨"b", some .bool⟩] none (.block body) false] := by
  intro body statements
  have hLower : (lower (.program statements)).fault = none := rfl
  exact ⟨hLower, rfl, (decode_lower statements hLower).1 rfl⟩

/-- A script inside a script is lowered to the same instructions as its
statements, so no decoder can tell the two apart. -/
theorem no_decoder_of_inner_script :
    ¬ ∃ decoder : List Instruction → List Node, ∀ statements,
      (lower (.program statements)).fault = none →
      decoder (lower (.program statements)).produced = unflaggedAll statements := by
  rintro ⟨decoder, hDecoder⟩
  have hInner := hDecoder [.program [.showStatement (.number (.int 1))]] rfl
  have hOuter := hDecoder [.showStatement (.number (.int 1))] rfl
  have hEqual := hInner.symm.trans hOuter
  cases hEqual

end PageScript.Instruction
