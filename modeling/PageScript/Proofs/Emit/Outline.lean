import PageScript.Proofs.Emit.Lines
import PageScript.Proofs.Instruction.Lowering

/-! The block structure of a script. The lines of the emitted text open and
close blocks just where the instructions do, and in both every block that is
opened is closed again. -/
namespace PageScript

open Instruction Emit Progress

/-- What a line does to the nesting of blocks. -/
inductive LineKind where
  | opener
  | closer
  | simple
  deriving Repr, DecidableEq

namespace LineKind

/-- The kind of a line is seen from its end. -/
def ofLine? (line : String) : Option LineKind :=
  if line = "\x7d" then some closer
  else if line.toList.getLast? = some '\x7b' then some opener
  else if line.toList.getLast? = some ';' then some simple
  else none

/-- The kinds of the lines that an instruction stands for. An alternative
closes one block and opens the next. -/
def ofInstruction : Instruction → List LineKind
  | .declare _ _ _ => [simple]
  | .returnValue _ => [simple]
  | .showValue _ => [simple]
  | .functionStart _ _ _ => [opener]
  | .ifStart _ => [opener]
  | .whileStart _ => [opener]
  | .forStart _ _ => [opener]
  | .elseStart => [closer, opener]
  | .functionEnd _ => [closer]
  | .ifEnd => [closer]
  | .whileEnd => [closer]
  | .forEnd => [closer]

def outline (is : List Instruction) : List LineKind :=
  is.flatMap ofInstruction

/-- The number of open blocks after the lines, unless one of them closes a
block where none is open. -/
def depthAfter : Nat → List LineKind → Option Nat
  | depth, [] => some depth
  | depth, opener :: rest => depthAfter (depth + 1) rest
  | 0, closer :: _ => none
  | depth + 1, closer :: rest => depthAfter depth rest
  | depth, simple :: rest => depthAfter depth rest

/-- Every block that is opened is closed again, and no other is closed. -/
def Balanced (kinds : List LineKind) : Prop :=
  depthAfter 0 kinds = some 0

instance (kinds : List LineKind) : Decidable (Balanced kinds) :=
  inferInstanceAs (Decidable (depthAfter 0 kinds = some 0))

/-! ### Kinds of lines -/

theorem ofLine?_closing : ofLine? closing = some closer :=
  rfl

section written

variable {line : String}

/-- A line that ends with an opening brace opens a block. -/
theorem ofLine?_opener (h : line.toList.getLast? = some '\x7b') : ofLine? line = some opener := by
  have hCloser : line ≠ "\x7d" := by
    rintro rfl
    cases h
  rw [ofLine?, if_neg hCloser, if_pos h]

/-- A line that ends with a semicolon neither opens nor closes a block. -/
theorem ofLine?_simple (h : line.toList.getLast? = some ';') : ofLine? line = some simple := by
  have hCloser : line ≠ "\x7d" := by
    rintro rfl
    cases h
  have hOpener : line.toList.getLast? ≠ some '\x7b' := by simp [h]
  rw [ofLine?, if_neg hCloser, if_neg hOpener, if_pos h]

theorem getLast?_of_append {front back : String} {c : Char} (h : back.toList.getLast? = some c) :
    (front ++ back).toList.getLast? = some c := by
  rw [String.toList_append, List.getLast?_append, h]
  rfl

/-- A line around an expression ends as the piece behind the expression
does. -/
theorem getLast?_lineOf {before after : String} {n : Node} {c : Char}
    (h : lineOf before n after = .ok line) (hAfter : after.toList.getLast? = some c) :
    line.toList.getLast? = some c := by
  obtain ⟨text, -, rfl⟩ := lineOf_ok h
  exact getLast?_of_append hAfter

theorem ofLine?_lineOf_opener {before : String} {n : Node}
    (h : lineOf before n ") \x7b" = .ok line) :
    ofLine? line = some opener :=
  ofLine?_opener (getLast?_lineOf h rfl)

theorem ofLine?_declaration {name : String} {type : Option Ty} {value : Node} {constant : Bool}
    (h : declaration name type value constant = .ok line) : ofLine? line = some simple := by
  obtain ⟨_, _, -, -, rfl⟩ := declaration_ok h
  exact ofLine?_simple (getLast?_of_append rfl)

theorem ofLine?_functionHead {name : String} {parameters : List Parameter} {result : Option Ty}
    {async : Bool} (h : functionHead name parameters result async = .ok line) :
    ofLine? line = some opener := by
  obtain ⟨_, _, -, -, rfl⟩ := functionHead_ok h
  exact ofLine?_opener (getLast?_of_append rfl)

end written

/-- No line with a kind is empty. -/
theorem ne_empty_of_ofLine? {line : String} {kind : LineKind} (h : ofLine? line = some kind) :
    line ≠ "" := by
  rintro rfl
  cases h

/-! ### Instructions and lines -/

section agreement

/-- A list of lines that does to the nesting of blocks what the instructions
do. -/
def Outlines (lines : List String) (is : List Instruction) : Prop :=
  lines.map ofLine? = (outline is).map some

/-- Lines and instructions with the same outline keep it when others with one
outline follow them. -/
theorem Outlines.append {lines others : List String} {is js : List Instruction}
    (first : Outlines lines is) (rest : Outlines others js) :
    Outlines (lines ++ others) (is ++ js) := by
  unfold Outlines outline at *
  rw [List.map_append, List.flatMap_append, List.map_append, first, rest]

/-- A body between an opening and a closing line. -/
theorem Outlines.braced {lines : List String} {is : List Instruction} {head : String}
    {opening ending : Instruction} (hHead : ofLine? head = some opener)
    (hOpening : ofInstruction opening = [opener]) (hEnding : ofInstruction ending = [closer])
    (inside : Outlines lines is) :
    Outlines (head :: (lines ++ [closing])) (opening :: (is ++ [ending])) := by
  have hFirst : Outlines [head] [opening] := by simp [Outlines, outline, hHead, hOpening]
  have hLast : Outlines [closing] [ending] := by simp [Outlines, outline, ofLine?_closing, hEnding]
  exact hFirst.append (inside.append hLast)

theorem Outlines.single {line : String} {i : Instruction} (hLine : ofLine? line = some simple)
    (hInstruction : ofInstruction i = [simple]) : Outlines [line] [i] := by
  simp [Outlines, outline, hLine, hInstruction]

mutual

/-- A statement that is both lowered and emitted has one outline. The recursion
takes lowering and emission side by side: a statement that opens a block in the
one does so in the other. -/
theorem outlines_of_emit (s : Node) {is : List Instruction} {lines : List String}
    (hLower : lower s = ⟨is, none⟩) (hEmit : emit s = ⟨lines, none⟩) :
    Outlines lines is := by
  cases s with
  | program statements =>
      cases lowers_of_lower hLower with
      | program lowered =>
          cases emits_of_emit hEmit with
          | program emitted => exact outlines_of_emitAll statements lowered emitted
  | declaration name type value constant =>
      cases lowers_of_lower hLower
      cases emits_of_emit hEmit with
      | declaration written => exact .single (ofLine?_declaration written) rfl
  | functionDeclaration name parameters result body async =>
      cases lowers_of_lower hLower with
      | function lowered =>
          cases emits_of_emit hEmit with
          | function written emitted =>
              exact .braced (ofLine?_functionHead written) rfl rfl
                (outlines_of_emitBlock body lowered emitted)
  | returnStatement value =>
      cases lowers_of_lower hLower
      cases emits_of_emit hEmit with
      | returnNothing => exact .single rfl rfl
      | returned written => exact .single (ofLine?_simple (getLast?_lineOf written rfl)) rfl
  | showStatement value =>
      cases lowers_of_lower hLower
      cases emits_of_emit hEmit with
      | shown written => exact .single (ofLine?_simple (getLast?_lineOf written rfl)) rfl
  | ifStatement condition thenBlock elseBlock =>
      cases lowers_of_lower hLower with
      | branch lowered =>
          cases emits_of_emit hEmit with
          | branch written emitted =>
              exact .braced (ofLine?_lineOf_opener written) rfl rfl
                (outlines_of_emitBlock thenBlock lowered emitted)
          | branches _ _ otherwise => simp [emitBlock] at otherwise
      | branches lowered others =>
          cases emits_of_emit hEmit with
          | branch => exact absurd others (lowerBlock_missing _)
          | @branches _ _ _ head _ _ written emitted otherwise =>
              have hThen := outlines_of_emitBlock thenBlock lowered emitted
              have hElse := outlines_of_emitBlock elseBlock others otherwise
              have hFirst : Outlines [head] [ifStart condition] := by
                simp [Outlines, outline, ofLine?_lineOf_opener written, ofInstruction]
              have hMiddle : Outlines [closing, "else \x7b"] [elseStart] := rfl
              have hLast : Outlines [closing] [ifEnd] := rfl
              simpa using hFirst.append (hThen.append (hMiddle.append (hElse.append hLast)))
  | whileStatement condition body =>
      cases lowers_of_lower hLower with
      | loop lowered =>
          cases emits_of_emit hEmit with
          | loop written emitted =>
              exact .braced (ofLine?_lineOf_opener written) rfl rfl
                (outlines_of_emitBlock body lowered emitted)
  | forStatement iterator iterable body =>
      cases lowers_of_lower hLower with
      | forEach lowered =>
          cases emits_of_emit hEmit with
          | forEach written emitted =>
              exact .braced (ofLine?_lineOf_opener written) rfl rfl
                (outlines_of_emitBlock body lowered emitted)
  | _ => cases lowers_of_lower hLower

/-- The lines of a block open and close blocks where its instructions do. -/
theorem outlines_of_emitBlock (block : Node) {is : List Instruction} {lines : List String}
    (hLower : lowerBlock block = ⟨is, none⟩) (hEmit : emitBlock block = ⟨lines, none⟩) :
    Outlines lines is := by
  cases block with
  | block statements =>
      rw [lowerBlock] at hLower
      rw [emitBlock] at hEmit
      exact outlines_of_emitAll statements hLower hEmit
  | program statements =>
      rw [lowerBlock] at hLower
      rw [emitBlock] at hEmit
      exact outlines_of_emitAll statements hLower hEmit
  | _ => simp [lowerBlock] at hLower

/-- The lines of statements open and close blocks where their instructions
do. -/
theorem outlines_of_emitAll (statements : List Node) {is : List Instruction} {lines : List String}
    (hLower : lowerAll statements = ⟨is, none⟩)
    (hEmit : emitAll statements = ⟨lines, none⟩) :
    Outlines lines is := by
  cases statements with
  | nil =>
      rw [lowerAll, nothing_eq_iff] at hLower
      rw [emitAll, nothing_eq_iff] at hEmit
      subst hLower hEmit
      rfl
  | cons s rest =>
      obtain ⟨_, _, hLowerFirst, hLowerOthers, rfl⟩ := lowerAll_cons_iff.mp hLower
      obtain ⟨_, _, hEmitFirst, hEmitOthers, rfl⟩ := emitAll_cons_iff.mp hEmit
      exact (outlines_of_emit s hLowerFirst hEmitFirst).append
        (outlines_of_emitAll rest hLowerOthers hEmitOthers)

end

end agreement

/-! ### Depth -/

/-- How deep the blocks are nested after some lines and others is found in two
steps. -/
theorem depthAfter_append (depth : Nat) (kinds others : List LineKind) :
    depthAfter depth (kinds ++ others) = (depthAfter depth kinds).bind fun d =>
      depthAfter d others := by
  induction kinds generalizing depth with
  | nil => rfl
  | cons kind rest ih =>
      cases kind with
      | opener => exact ih (depth + 1)
      | closer =>
          cases depth with
          | zero => rfl
          | succ depth => exact ih depth
      | simple => exact ih depth

/-- Whatever surrounds them, properly nested instructions leave as many blocks
open as they found. -/
theorem depthAfter_outline {is : List Instruction} (h : Nested is) (depth : Nat) :
    depthAfter depth (outline is) = some depth := by
  induction h generalizing depth with
  | nil => rfl
  | declare | returned | shown => rfl
  | append _ _ ihFirst ihOthers =>
      rw [outline, List.flatMap_append, depthAfter_append]
      exact (congrArg (Option.bind · _) (ihFirst depth)).trans (ihOthers depth)
  | function _ ih | branch _ ih | loop _ ih | forEach _ ih =>
      simp only [outline, List.flatMap_cons, List.flatMap_append, ofInstruction,
        List.singleton_append, depthAfter, depthAfter_append]
      exact (congrArg (Option.bind · _) (ih (depth + 1)))
  | branches _ _ ihThen ihElse =>
      simp only [outline, List.flatMap_cons, List.flatMap_append, ofInstruction,
        List.singleton_append, depthAfter, depthAfter_append]
      rw [← outline, ihThen]
      exact (congrArg (Option.bind · _) (ihElse (depth + 1)))

/-! ### The whole text -/

/-- If a script is lowered and emitted, and none of its names and texts has a
line end, then the lines of its text have the kinds that its instructions stand
for, and they are balanced. -/
theorem linesOf_emit_outline (root : Node) (hLower : (lower root).fault = none)
    (hEmit : (emit root).fault = none) (hTexts : ∀ t ∈ texts root, SingleLine t) :
    (linesOf (joinLines (emit root).produced)).map ofLine? =
      (outline (lower root).produced).map some ∧
      Balanced (outline (lower root).produced) := by
  have hLowered := eq_of_fault hLower
  have hEmitted := eq_of_fault hEmit
  have hOutlines : Outlines (emit root).produced (lower root).produced :=
    outlines_of_emit root hLowered hEmitted
  have hSome (l : String) (hl : l ∈ (emit root).produced) : l ≠ "" := by
    obtain ⟨kind, -, hKind⟩ := List.mem_map.mp (hOutlines ▸ List.mem_map_of_mem hl)
    exact ne_empty_of_ofLine? hKind.symm
  rw [linesOf_joinLines (singleLine_of_emit root hEmitted hTexts) hSome]
  exact ⟨hOutlines, depthAfter_outline (nested_of_lower root hLowered) 0⟩

/-- A function with a loop around a branch with an alternative. -/
theorem linesOf_emit_outline_nested :
    let shown := Node.block [.showStatement (.string "\x7b;")]
    let branch := Node.ifStatement (.bool true) shown (.block [.returnStatement .missing])
    let root := Node.program [.functionDeclaration "f" [⟨"n", some .int⟩] none
      (.block [.whileStatement (.identifier "n") (.block [branch])]) true]
    (linesOf (joinLines (emit root).produced)).map ofLine? =
      (outline (lower root).produced).map some ∧
      Balanced (outline (lower root).produced) ∧
      outline (lower root).produced =
        [opener, opener, opener, simple, closer, opener, simple, closer, closer, closer] := by
  intro shown branch root
  have hLower : (lower root).fault = none := rfl
  have hEmit : (emit root).fault = none := rfl
  obtain ⟨hLines, hBalanced⟩ := linesOf_emit_outline root hLower hEmit (by decide)
  exact ⟨hLines, hBalanced, rfl⟩

end LineKind

end PageScript
