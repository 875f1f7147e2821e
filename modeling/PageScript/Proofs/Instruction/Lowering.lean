import PageScript.Compile
import PageScript.Proofs.Analysis.Acceptance
import PageScript.Proofs.Progress

/-! Lowering a script. All the ways in which a statement is lowered are said
once, so that no later proof opens the lowering again. What is lowered has its
brackets properly nested, and a script that analysis accepts is always
lowered. -/
namespace PageScript.Instruction

open Progress

/-- The ways in which a statement is lowered, and the instructions it is
lowered to. -/
inductive Lowers : Node → List Instruction → Prop where
  | program {statements : List Node} {is : List Instruction}
      (all : lowerAll statements = ⟨is, none⟩) :
      Lowers (.program statements) is
  | declaration (name : String) (type : Option Ty) (value : Node) (constant : Bool) :
      Lowers (.declaration name type value constant) [declare name type value]
  | function {name : String} {parameters : List Parameter} {result : Option Ty} {body : Node}
      {async : Bool}
      {is : List Instruction} (inside : lowerBlock body = ⟨is, none⟩) :
      Lowers (.functionDeclaration name parameters result body async)
        (functionStart name parameters result :: (is ++ [functionEnd name]))
  | returned (value : Node) : Lowers (.returnStatement value) [returnValue value]
  | shown (value : Node) : Lowers (.showStatement value) [showValue value]
  | branch {condition thenBlock : Node} {is : List Instruction}
      (inside : lowerBlock thenBlock = ⟨is, none⟩) :
      Lowers (.ifStatement condition thenBlock .missing) (ifStart condition :: (is ++ [ifEnd]))
  | branches {condition thenBlock elseBlock : Node} {is js : List Instruction}
      (inside : lowerBlock thenBlock = ⟨is, none⟩)
      (otherwise : lowerBlock elseBlock = ⟨js, none⟩) :
      Lowers (.ifStatement condition thenBlock elseBlock)
        (ifStart condition :: (is ++ elseStart :: (js ++ [ifEnd])))
  | loop {condition body : Node} {is : List Instruction}
      (inside : lowerBlock body = ⟨is, none⟩) :
      Lowers (.whileStatement condition body) (whileStart condition :: (is ++ [whileEnd]))
  | forEach {iterator : String} {iterable body : Node} {is : List Instruction}
      (inside : lowerBlock body = ⟨is, none⟩) :
      Lowers (.forStatement iterator iterable body) (forStart iterator iterable :: (is ++ [forEnd]))

section inversion

variable {is : List Instruction}

/-- A body between two brackets. -/
theorem bracket_eq_iff {opening closing : Instruction} {body : Unit → Progress Instruction} :
    ((one opening).andThen body).andThen (fun _ => one closing) = ⟨is, none⟩ ↔
      ∃ inside, body () = ⟨inside, none⟩ ∧ is = opening :: (inside ++ [closing]) := by
  simp only [andThen_eq_iff, one_eq_iff]
  constructor
  · rintro ⟨_, _, ⟨_, inside, rfl, hBody, rfl⟩, rfl, rfl⟩
    exact ⟨inside, hBody, rfl⟩
  · rintro ⟨inside, hBody, rfl⟩
    exact ⟨_, _, ⟨_, inside, rfl, hBody, rfl⟩, rfl, rfl⟩

theorem lowerBlock_missing (is : List Instruction) : lowerBlock .missing ≠ ⟨is, none⟩ := by
  simp [lowerBlock]

/-- Statements are lowered exactly if the first one is and the others are, and
their instructions follow one another. -/
theorem lowerAll_cons_iff {s : Node} {rest : List Node} : lowerAll (s :: rest) = ⟨is, none⟩ ↔
    ∃ first others, lower s = ⟨first, none⟩ ∧ lowerAll rest = ⟨others, none⟩ ∧
      is = first ++ others := by
  rw [lowerAll, andThen_eq_iff]

/-- All that a lowered statement rests on. One case for each sort of statement;
what cannot be lowered has none. -/
theorem lowers_of_lower {s : Node} (h : lower s = ⟨is, none⟩) : Lowers s is := by
  cases s with
  | program statements =>
      rw [lower] at h
      exact .program h
  | declaration name type value constant =>
      rw [lower, one_eq_iff] at h
      subst h
      exact .declaration name type value constant
  | functionDeclaration name parameters result body async =>
      rw [lower, bracket_eq_iff] at h
      obtain ⟨inside, hBody, rfl⟩ := h
      exact .function hBody
  | returnStatement value =>
      rw [lower, one_eq_iff] at h
      subst h
      exact .returned value
  | showStatement value =>
      rw [lower, one_eq_iff] at h
      subst h
      exact .shown value
  | ifStatement condition thenBlock elseBlock =>
      by_cases hMissing : elseBlock = .missing
      · subst hMissing
        rw [lower] at h
        simp only [andThen_eq_iff, one_eq_iff, nothing_eq_iff] at h
        obtain ⟨_, _, ⟨_, _, ⟨_, inside, rfl, hThen, rfl⟩, rfl, rfl⟩, rfl, rfl⟩ := h
        rw [List.append_nil]
        exact .branch hThen
      · rw [lower] at h
        · simp only [andThen_eq_iff, one_eq_iff] at h
          obtain ⟨_, _, ⟨_, _, ⟨_, inside, rfl, hThen, rfl⟩,
              ⟨_, others, rfl, hElse, rfl⟩, rfl⟩, rfl, rfl⟩ := h
          simpa using Lowers.branches hThen hElse
        · exact hMissing
  | whileStatement condition body =>
      rw [lower, bracket_eq_iff] at h
      obtain ⟨inside, hBody, rfl⟩ := h
      exact .loop hBody
  | forStatement iterator iterable body =>
      rw [lower, bracket_eq_iff] at h
      obtain ⟨inside, hBody, rfl⟩ := h
      exact .forEach hBody
  | _ => simp [lower] at h

/-- A statement is lowered in each of these ways. -/
theorem lower_of_lowers {s : Node} (h : Lowers s is) : lower s = ⟨is, none⟩ := by
  cases h with
  | program all => rwa [lower]
  | declaration => rw [lower, one_eq_iff]
  | function inside =>
      rw [lower, bracket_eq_iff]
      exact ⟨_, inside, rfl⟩
  | returned => rw [lower, one_eq_iff]
  | shown => rw [lower, one_eq_iff]
  | branch inside => simp [lower, inside, one, nothing]
  | branches inside otherwise =>
      rw [lower]
      · simp [inside, otherwise, one]
      · rintro rfl
        exact lowerBlock_missing _ otherwise
  | loop inside =>
      rw [lower, bracket_eq_iff]
      exact ⟨_, inside, rfl⟩
  | forEach inside =>
      rw [lower, bracket_eq_iff]
      exact ⟨_, inside, rfl⟩

end inversion

/-! ### Brackets -/

/-- Instructions whose brackets are properly nested: every bracket is closed by
one of its own kind, a function by its own name, and a branch has at most one
alternative. -/
inductive Nested : List Instruction → Prop where
  | nil : Nested []
  | declare (name : String) (type : Option Ty) (value : Node) : Nested [.declare name type value]
  | returned (value : Node) : Nested [returnValue value]
  | shown (value : Node) : Nested [showValue value]
  | append {is js : List Instruction} (first : Nested is) (others : Nested js) : Nested (is ++ js)
  | function {name : String} {parameters : List Parameter} {result : Option Ty}
      {is : List Instruction}
      (inside : Nested is) :
      Nested (functionStart name parameters result :: (is ++ [functionEnd name]))
  | branch {condition : Node} {is : List Instruction} (inside : Nested is) :
      Nested (ifStart condition :: (is ++ [ifEnd]))
  | branches {condition : Node} {is js : List Instruction} (inside : Nested is)
      (otherwise : Nested js) :
      Nested (ifStart condition :: (is ++ elseStart :: (js ++ [ifEnd])))
  | loop {condition : Node} {is : List Instruction} (inside : Nested is) :
      Nested (whileStart condition :: (is ++ [whileEnd]))
  | forEach {iterator : String} {iterable : Node} {is : List Instruction} (inside : Nested is) :
      Nested (forStart iterator iterable :: (is ++ [forEnd]))

mutual

/-- Whatever is lowered has its brackets properly nested. The recursion is that
of lowering, and a block stands between a bracket and the one that closes
it. -/
theorem nested_of_lower (s : Node) {is : List Instruction} (h : lower s = ⟨is, none⟩) :
    Nested is := by
  cases s with
  | program statements =>
      cases lowers_of_lower h with
      | program all => exact nested_of_lowerAll statements all
  | declaration name type value constant =>
      cases lowers_of_lower h
      exact .declare name type value
  | functionDeclaration name parameters result body async =>
      cases lowers_of_lower h with
      | function inside => exact .function (nested_of_lowerBlock body inside)
  | returnStatement value =>
      cases lowers_of_lower h
      exact .returned value
  | showStatement value =>
      cases lowers_of_lower h
      exact .shown value
  | ifStatement condition thenBlock elseBlock =>
      cases lowers_of_lower h with
      | branch inside => exact .branch (nested_of_lowerBlock thenBlock inside)
      | branches inside otherwise =>
          exact .branches (nested_of_lowerBlock thenBlock inside)
            (nested_of_lowerBlock elseBlock otherwise)
  | whileStatement condition body =>
      cases lowers_of_lower h with
      | loop inside => exact .loop (nested_of_lowerBlock body inside)
  | forStatement iterator iterable body =>
      cases lowers_of_lower h with
      | forEach inside => exact .forEach (nested_of_lowerBlock body inside)
  | _ => cases lowers_of_lower h

theorem nested_of_lowerBlock (block : Node) {is : List Instruction}
    (h : lowerBlock block = ⟨is, none⟩) :
    Nested is := by
  cases block with
  | block statements =>
      rw [lowerBlock] at h
      exact nested_of_lowerAll statements h
  | program statements =>
      rw [lowerBlock] at h
      exact nested_of_lowerAll statements h
  | _ => simp [lowerBlock] at h

theorem nested_of_lowerAll (statements : List Node) {is : List Instruction}
    (h : lowerAll statements = ⟨is, none⟩) : Nested is := by
  cases statements with
  | nil =>
      rw [lowerAll, nothing_eq_iff] at h
      subst h
      exact .nil
  | cons s rest =>
      obtain ⟨first, others, hFirst, hOthers, rfl⟩ := lowerAll_cons_iff.mp h
      exact .append (nested_of_lower s hFirst) (nested_of_lowerAll rest hOthers)

end

/-! ### Accepted scripts -/

section accepted

open Analysis (Symbols analyse analyseBlock analyseAll accepted_of_analyse analyseAll_cons_ok)

mutual

/-- A statement that analysis accepts is lowered, with all statements inside
it. Lowering is told in cases, and each of them asks of its blocks no more than
that they are lowered. -/
theorem lower_of_analyse {symbols after : Symbols} (s : Node)
    (h : analyse symbols s = ⟨after, none⟩) :
    ∃ is, lower s = ⟨is, none⟩ := by
  cases s with
  | program statements =>
      cases accepted_of_analyse h with
      | program all =>
          obtain ⟨is, hAll⟩ := lowerAll_of_analyseAll statements all
          exact ⟨is, lower_of_lowers (.program hAll)⟩
  | declaration name type value constant =>
      exact ⟨_, lower_of_lowers (.declaration name type value constant)⟩
  | functionDeclaration name parameters result body async =>
      cases accepted_of_analyse h with
      | function _ inside =>
          obtain ⟨is, hBody⟩ := lowerBlock_of_analyseBlock body inside
          exact ⟨_, lower_of_lowers (.function hBody)⟩
  | returnStatement value => exact ⟨_, lower_of_lowers (.returned value)⟩
  | showStatement value => exact ⟨_, lower_of_lowers (.shown value)⟩
  | ifStatement condition thenBlock elseBlock =>
      cases accepted_of_analyse h with
      | branch _ inside =>
          obtain ⟨is, hThen⟩ := lowerBlock_of_analyseBlock thenBlock inside
          exact ⟨_, lower_of_lowers (.branch hThen)⟩
      | branches _ inside otherwise =>
          obtain ⟨is, hThen⟩ := lowerBlock_of_analyseBlock thenBlock inside
          obtain ⟨js, hElse⟩ := lowerBlock_of_analyseBlock elseBlock otherwise
          exact ⟨_, lower_of_lowers (.branches hThen hElse)⟩
  | whileStatement condition body =>
      cases accepted_of_analyse h with
      | loop _ inside =>
          obtain ⟨is, hBody⟩ := lowerBlock_of_analyseBlock body inside
          exact ⟨_, lower_of_lowers (.loop hBody)⟩
  | forStatement iterator iterable body =>
      cases accepted_of_analyse h with
      | forEach _ inside =>
          obtain ⟨is, hBody⟩ := lowerBlock_of_analyseBlock body inside
          exact ⟨_, lower_of_lowers (.forEach hBody)⟩
  | _ => cases accepted_of_analyse h

/-- A block that analysis accepts is lowered. -/
theorem lowerBlock_of_analyseBlock {symbols after : Symbols} (block : Node)
    (h : analyseBlock symbols block = ⟨after, none⟩) :
    ∃ is, lowerBlock block = ⟨is, none⟩ := by
  cases block with
  | block statements =>
      rw [analyseBlock] at h
      rw [lowerBlock]
      exact lowerAll_of_analyseAll statements h
  | program statements =>
      rw [analyseBlock] at h
      rw [lowerBlock]
      exact lowerAll_of_analyseAll statements h
  | _ =>
      simp only [analyseBlock] at h
      cases h

theorem lowerAll_of_analyseAll {symbols after : Symbols} (statements : List Node)
    (h : analyseAll symbols statements = ⟨after, none⟩) :
    ∃ is, lowerAll statements = ⟨is, none⟩ := by
  cases statements with
  | nil => exact ⟨[], by rw [lowerAll, nothing_eq_iff]⟩
  | cons s rest =>
      obtain ⟨between, hFirst, hRest⟩ := analyseAll_cons_ok h
      obtain ⟨first, hLower⟩ := lower_of_analyse s hFirst
      obtain ⟨others, hOthers⟩ := lowerAll_of_analyseAll rest hRest
      exact ⟨first ++ others, lowerAll_cons_iff.mpr ⟨first, others, hLower, hOthers, rfl⟩⟩

end

/-- What compiling adds to a compiler, once the script has been accepted and
lowered. Whether there is a text then depends on emission alone. -/
theorem compile_of_lower {c : Compiler} {root : Node} {is : List Instruction}
    (hAccepted : (analyse c.symbols root).fault = none) (hLower : lower root = ⟨is, none⟩) :
    c.compile root =
      (⟨(analyse c.symbols root).symbols, c.instructions ++ is,
        c.lines ++ (Emit.emit root).produced⟩,
        (Emit.emit root).fault.elim (.ok (Emit.joinLines (c.lines ++ (Emit.emit root).produced)))
        .error) := by
  simp only [Compiler.compile, hAccepted, hLower]
  cases (Emit.emit root).fault <;> rfl

/-- A script that analysis accepts, from whatever symbols, is lowered without a
fault: compiling it adds all its instructions to those that are there already,
whatever these are, and only emission can fail afterwards. -/
theorem compile_lowers_accepted (c : Compiler) (root : Node)
    (hAccepted : (analyse c.symbols root).fault = none) :
    (lower root).fault = none ∧
      (c.compile root).1.instructions = c.instructions ++ (lower root).produced ∧
      ∀ fault, (c.compile root).2 = .error fault ↔ (Emit.emit root).fault = some fault := by
  have hAnalyse : analyse c.symbols root = ⟨(analyse c.symbols root).symbols, none⟩ := by
    rw [← hAccepted]
  obtain ⟨is, hLower⟩ := lower_of_analyse root hAnalyse
  rw [compile_of_lower hAccepted hLower, hLower]
  refine ⟨rfl, rfl, fun fault => ?_⟩
  cases (Emit.emit root).fault <;> simp

/-- A function with loops and branches inside it, compiled after another
script. -/
theorem compile_lowers_accepted_nested :
    let c : Compiler :=
      ⟨.ofEntries [("limit", .variable (some .int))], [showValue (.identifier "limit")], []⟩
    let root : Node := .program [
      .functionDeclaration "count" [⟨"n", some .int⟩] (some .int) (.block [
        .whileStatement (.bool true) (.block [
          .ifStatement (.binary (.identifier "n") "<" (.identifier "limit"))
            (.block [.showStatement (.identifier "n")]) (.block [])]),
        .returnStatement (.identifier "n")]) false,
      .forStatement "i" (.string "abc") (.block [.showStatement (.identifier "limit")])]
    (analyse c.symbols root).fault = none ∧ (lower root).fault = none ∧
      (c.compile root).1.instructions = c.instructions ++ (lower root).produced := by
  intro c root
  have hAccepted : (analyse c.symbols root).fault = none := rfl
  obtain ⟨hLower, hInstructions, -⟩ := compile_lowers_accepted c root hAccepted
  exact ⟨hAccepted, hLower, hInstructions⟩

end accepted

end PageScript.Instruction
