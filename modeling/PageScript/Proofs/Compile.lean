import PageScript.Proofs.Analysis.Locality
import PageScript.Proofs.Instruction.Lowering

/-! What a script that fails to compile leaves behind. A compiler takes nothing
back. Main statement: what a failed script adds is contained. The table of
symbols gains only names that the script declares, instructions and lines are
added only if it was emission that failed, and a later script that stays clear
of those names is compiled as if the failed one had never been given. -/
namespace PageScript.Compiler

open Analysis Instruction

/-- What one script adds to a compiler, and the fault it ends with. -/
structure Addition where
  entries : Symbols
  instructions : List Instruction
  lines : List String
  fault : Option Fault

/-- A compiler with an addition, and its answer. -/
def extend (c : Compiler) (a : Addition) : Compiler × Except Fault String :=
  (⟨c.symbols.update a.entries, c.instructions ++ a.instructions, c.lines ++ a.lines⟩,
    a.fault.elim (.ok (Emit.joinLines (c.lines ++ a.lines))) .error)

/-- The stages that an addition comes from. -/
inductive Stages (root : Node) (verdict : Option Fault) : Addition → Prop where
  | refused {entries : Symbols} {fault : Fault} (refuses : verdict = some fault) :
      Stages root verdict ⟨entries, [], [], some fault⟩
  | emitted {a : Addition} (accepts : verdict = none)
      (lowers : lower root = ⟨a.instructions, none⟩)
      (emits : Emit.emit root = ⟨a.lines, a.fault⟩) : Stages root verdict a

section compiling

variable {c d : Compiler} {root : Node}

/-- A script that analysis refuses leaves behind the names it has entered so
far, and neither instructions nor lines. -/
theorem compile_of_refused {fault : Fault} (h : (analyse c.symbols root).fault = some fault) :
    c.compile root = (⟨(analyse c.symbols root).symbols, c.instructions, c.lines⟩,
      .error fault) := by
  simp only [compile, h]

theorem fault_of_extend {a : Addition} {fault : Fault} (h : (c.extend a).2 = .error fault) :
    a.fault = some fault := by
  obtain ⟨entries, instructions, lines, ending⟩ := a
  cases ending with
  | none => cases h
  | some other =>
      cases h
      rfl

/-- Compilers whose tables agree on the names of a script make the same
addition. Refused or accepted, the two are so together, and lowering and
emitting do not look at the table at all. -/
theorem compile_extend (h : Agree root.Mentions c.symbols d.symbols) :
    ∃ a : Addition, c.compile root = c.extend a ∧ d.compile root = d.extend a ∧
      (∀ name ∈ a.entries.names, root.Declares name) ∧
        Stages root (analyse c.symbols root).fault a := by
  have hSide := analyse_sideBySide root h
  obtain ⟨entries, hFirst, hSecond, hDeclared⟩ := hSide.entries
  cases hVerdict : (analyse c.symbols root).fault with
  | some fault =>
      refine ⟨⟨entries, [], [], some fault⟩, ?_, ?_, hDeclared, .refused rfl⟩
      · rw [compile_of_refused hVerdict, hFirst]
        simp [extend]
      · rw [compile_of_refused (hSide.fault_eq.symm.trans hVerdict), hSecond]
        simp [extend]
  | none =>
      have hAccepted : analyse c.symbols root = ⟨(analyse c.symbols root).symbols, none⟩ := by
        rw [← hVerdict]
      obtain ⟨is, hLower⟩ := lower_of_analyse root hAccepted
      refine ⟨⟨entries, is, (Emit.emit root).produced, (Emit.emit root).fault⟩, ?_,
        ?_, hDeclared, .emitted rfl hLower rfl⟩
      · rw [compile_of_lower hVerdict hLower, hFirst]
        rfl
      · rw [compile_of_lower (hSide.fault_eq.symm.trans hVerdict) hLower, hSecond]
        rfl

/-- A script that fails adds to the table of symbols only names that it
declares. If analysis refuses it, nothing else is added; otherwise its emission
has failed, and all of its instructions and the lines before the fault are
added. A later script that mentions none of the names it declares adds and
answers the same with or without it. -/
theorem compile_fault_contained (c : Compiler) (root : Node) (fault : Fault)
    (hFault : (c.compile root).2 = .error fault) :
    ∃ a : Addition, c.compile root = c.extend a ∧ a.fault = some fault ∧
      (∀ name ∈ a.entries.names, root.Declares name) ∧
      ((analyse c.symbols root).fault = some fault ∧ a.instructions = [] ∧ a.lines = [] ∨
        (analyse c.symbols root).fault = none ∧ lower root = ⟨a.instructions, none⟩ ∧
          Emit.emit root = ⟨a.lines, some fault⟩) ∧
      ∀ later : Node, (∀ name, root.Declares name → ¬ later.Mentions name) →
        ∃ b : Addition, c.compile later = c.extend b ∧
          (c.compile root).1.compile later = (c.compile root).1.extend b := by
  have hSelf : Agree root.Mentions c.symbols c.symbols := fun _ _ => rfl
  obtain ⟨a, hCompile, -, hDeclared, hStages⟩ := compile_extend hSelf
  have hFailed : a.fault = some fault := fault_of_extend (by rw [← hCompile, hFault])
  refine ⟨a, hCompile, hFailed, hDeclared, ?_, fun later hClear => ?_⟩
  · cases hStages with
    | refused refuses => exact .inl ⟨refuses.trans hFailed, rfl, rfl⟩
    | emitted accepts lowers emits => exact .inr ⟨accepts, lowers, by rw [emits, hFailed]⟩
  · have hAgree : Agree later.Mentions c.symbols (c.compile root).1.symbols := by
      intro name hMentioned
      have hNew : name ∉ a.entries.names :=
        fun hEntered => hClear name (hDeclared name hEntered) hMentioned
      rw [hCompile]
      exact (Table.get?_update_of_notMem c.symbols hNew).symm
    obtain ⟨b, hWithout, hWith, -⟩ := compile_extend hAgree
    exact ⟨b, hWithout, hWith⟩

end compiling

/-- A script that declares a name and then reads one that is not declared. -/
def strayingScript : Node :=
  .program [.declaration "x" (some .int) (.number (.int 1)) false, .showStatement (.identifier "y")]

/-- A later script that stays clear of the name. -/
def laterScript : Node := .showStatement (.identifier "k")

/-- The later script mentions none of the names that the failed one
declares. -/
theorem clear_laterScript (name : String) (hDeclared : strayingScript.Declares name) :
    ¬ laterScript.Mentions name := by
  have hProgram := fun own statements => @Node.holds_iff own (.program statements) name
  have hDeclaration := fun own key type value constant =>
    @Node.holds_iff own (.declaration key type value constant) name
  have hShown := fun own value => @Node.holds_iff own (.showStatement value) name
  have hNumber := fun own value => @Node.holds_iff own (.number value) name
  have hIdentifier := fun own key => @Node.holds_iff own (.identifier key) name
  have hName : name = "x" := by
    simpa [strayingScript, hProgram, hDeclaration, hShown, hNumber, hIdentifier,
      Node.children, Node.binds]
      using hDeclared
  subst hName
  simp [laterScript, hShown, hIdentifier, Node.children, Node.names, Node.binds]

/-- The first script declares a name and then fails at an unknown one; the
second is compiled as if this had not been. -/
theorem compile_fault_contained_strayingScript :
    let c : Compiler := ⟨.ofEntries [("k", .variable (some .int))], [], ["int k = 0;"]⟩
    (c.compile strayingScript).2 = .error (.analysis (.undeclaredVariable "y")) ∧
      ∃ b : Addition, c.compile laterScript = c.extend b ∧
        (c.compile strayingScript).1.compile laterScript =
          (c.compile strayingScript).1.extend b := by
  intro c
  have hFault : (c.compile strayingScript).2 = .error (.analysis (.undeclaredVariable "y")) := rfl
  obtain ⟨-, -, -, -, -, hLater⟩ := compile_fault_contained c strayingScript _ hFault
  exact ⟨hFault, hLater laterScript clear_laterScript⟩

/-- A failed script keeps its names: the table is not what it was, and the
corrected script is refused for a name that a fresh compiler takes. -/
theorem compile_fault_keeps_names :
    let failed := fresh.compile strayingScript
    let corrected : Node := .program [.declaration "x" (some .int) (.number (.int 1)) false]
    failed.2 = .error (.analysis (.undeclaredVariable "y")) ∧
      failed.1.symbols.contains "x" = true ∧ fresh.symbols.contains "x" = false ∧
      (failed.1.compile corrected).2 = .error (.analysis (.variableRedeclared "x")) ∧
      (fresh.compile corrected).2 = .ok "int x = 1;" :=
  ⟨rfl, rfl, rfl, rfl, rfl⟩

end PageScript.Compiler
