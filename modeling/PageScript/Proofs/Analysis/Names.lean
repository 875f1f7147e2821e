import PageScript.Proofs.Analysis.Acceptance
import PageScript.Proofs.Run.Readings

/-! Names that analysis lets through. Analysis keeps one table for all blocks,
so a name stays known after the block that declares it has been closed, while a
run drops the frame of the block. Main statement: in an accepted script, a run
misses a name only where it is read after the block that declares it has been
closed. -/
namespace PageScript.Analysis

open Run

/-- All variables of the table are among these names. -/
def Within (symbols : Symbols) (names : List String) : Prop :=
  ∀ name type, symbols.get? name = some (.variable type) → name ∈ names

section tables

variable {symbols : Symbols} {names others : List String}

theorem Within.mono (h : Within symbols names) (hSubset : names ⊆ others) :
    Within symbols others :=
  fun name type hDeclared => hSubset (h name type hDeclared)

theorem Within.set_variable (h : Within symbols names) (name : String) (type : Option Ty) :
    Within (symbols.set name (.variable type)) (name :: names) := by
  intro other declaredType hDeclared
  by_cases hSame : other = name
  · exact hSame ▸ .head _
  · rw [Table.get?_set_of_ne symbols hSame] at hDeclared
    exact .tail _ (h other declaredType hDeclared)

/-- A function is no variable, so the names of variables stay as they are. -/
theorem Within.set_function (h : Within symbols names) (name : String)
    (parameters : List (Option Ty)) (result : Option Ty) :
    Within (symbols.set name (.function parameters result)) names := by
  intro other declaredType hDeclared
  by_cases hSame : other = name
  · rw [hSame, Table.get?_set_self] at hDeclared
    cases hDeclared
  · rw [Table.get?_set_of_ne symbols hSame] at hDeclared
    exact h other declaredType hDeclared

/-- A function makes variables of its parameters. -/
theorem Within.declareFunction (h : Within symbols names) (name : String)
    (parameters : List Parameter) (result : Option Ty) :
    Within (declareFunction symbols name parameters result)
      (parameters.map Parameter.name ++ names) := by
  refine Within.set_function ?_ name _ _
  induction parameters generalizing symbols names with
  | nil => exact h
  | cons parameter rest ih =>
      refine (ih (h.set_variable parameter.name (Ty.resolve parameter.type))).mono ?_
      simp [List.subset_def, or_left_comm]

end tables

/-! ### Variables of the table are declared before -/

mutual

/-- After an accepted statement the table has no variables but those it had
before and those that the statement declares. Names that are declared in blocks
count, too, since analysis does not forget them at the end of a block. -/
theorem analyse_within {symbols after : Symbols} {earlier : List String}
    (h : Within symbols earlier) (s : Node) (hAccepted : analyse symbols s = ⟨after, none⟩) :
    Within after (declared s ++ earlier) := by
  cases s with
  | program statements =>
      cases accepted_of_analyse hAccepted with
      | program hAll =>
          rw [declared]
          exact analyseAll_within h statements hAll
  | declaration name type value constant =>
      cases accepted_of_analyse hAccepted with
      | declaration => exact h.set_variable name _
  | functionDeclaration name parameters result body async =>
      cases accepted_of_analyse hAccepted with
      | function _ hBody =>
          refine (analyseBlock_within (h.declareFunction name parameters result) body hBody).mono ?_
          simp [declared, List.subset_def, or_left_comm]
  | returnStatement value => cases accepted_of_analyse hAccepted <;> exact h
  | showStatement value =>
      cases accepted_of_analyse hAccepted with
      | shown => exact h
  | ifStatement condition thenBlock elseBlock =>
      cases accepted_of_analyse hAccepted with
      | branch _ hThen =>
          refine (analyseBlock_within h thenBlock hThen).mono ?_
          simp [declared]
      | branches _ hThen hElse =>
          refine (analyseBlock_within (analyseBlock_within h thenBlock hThen) elseBlock hElse).mono
            ?_
          simp [declared, List.subset_def, or_left_comm]
  | whileStatement condition body =>
      cases accepted_of_analyse hAccepted with
      | loop _ hBody =>
          rw [declared]
          exact analyseBlock_within h body hBody
  | forStatement iterator iterable body =>
      cases accepted_of_analyse hAccepted with
      | forEach _ hBody =>
          rw [declared]
          exact analyseBlock_within h body hBody
  | _ => cases accepted_of_analyse hAccepted

/-- After a block all variables are among those declared in it and those known
before. -/
theorem analyseBlock_within {symbols after : Symbols} {earlier : List String}
    (h : Within symbols earlier) (block : Node)
    (hAccepted : analyseBlock symbols block = ⟨after, none⟩) :
    Within after (declared block ++ earlier) := by
  cases block with
  | block statements =>
      rw [analyseBlock] at hAccepted
      rw [declared]
      exact analyseAll_within h statements hAccepted
  | program statements =>
      rw [analyseBlock] at hAccepted
      rw [declared]
      exact analyseAll_within h statements hAccepted
  | _ =>
      simp only [analyseBlock] at hAccepted
      cases hAccepted

/-- After statements all variables are among those declared in them and those
known before. -/
theorem analyseAll_within {symbols after : Symbols} {earlier : List String}
    (h : Within symbols earlier) (statements : List Node)
    (hAccepted : analyseAll symbols statements = ⟨after, none⟩) :
    Within after (declaredAll statements ++ earlier) := by
  cases statements with
  | nil =>
      rw [analyseAll] at hAccepted
      cases hAccepted
      exact h
  | cons s rest =>
      obtain ⟨between, hFirst, hRest⟩ := analyseAll_cons_ok hAccepted
      refine (analyseAll_within (analyse_within h s hFirst) rest hRest).mono ?_
      simp [declaredAll, List.subset_def, or_left_comm]

end

/-! ### Names that are read are declared before -/

/-- A typed expression looks up nothing but variables of the table. -/
theorem variable_of_typeOf {symbols : Symbols} (e : Node) {type : Option Ty}
    (h : typeOf symbols e = .ok type) {name : String} (hName : name ∈ lookups e) :
    ∃ declaredType, symbols.get? name = some (.variable declaredType) := by
  cases e with
  | identifier other =>
      rw [typeOf] at h
      cases List.mem_singleton.mp hName
      exact ⟨type, variableType_ok h⟩
  | binary left operator right =>
      obtain ⟨_, _, _, hLeft, hRight, -⟩ := typeOf_binary_ok h
      rw [lookups, List.mem_append] at hName
      obtain hName | hName := hName
      · exact variable_of_typeOf left hLeft hName
      · exact variable_of_typeOf right hRight hName
  | _ => cases hName

/-- Every name among these readings has been declared before it is read. -/
def Announced (readings : List Reading) : Prop := ∀ r ∈ readings, r.name ∈ r.earlier

theorem Announced.append {front others : List Reading} (hFront : Announced front)
    (hOthers : Announced others) :
    Announced (front ++ others) :=
  fun r hr => (List.mem_append.mp hr).elim (hFront r) (hOthers r)

/-- In an expression that has a type every name that is read has been declared
before, in whatever block. -/
theorem announced_of_typeOf {symbols : Symbols} {earlier : List String} (h : Within symbols earlier)
    (visible : List String) {e : Node} {type : Option Ty} (hTyped : typeOf symbols e = .ok type) :
    Announced (readingsOf visible earlier e) := by
  intro r hr
  obtain ⟨name, hName, rfl⟩ := List.mem_map.mp hr
  obtain ⟨declaredType, hDeclared⟩ := variable_of_typeOf e hTyped hName
  exact h name declaredType hDeclared

mutual

/-- An accepted statement reads no name that is not declared before, in some
block. The induction is on the statement, with the names declared so far as its
parameter. -/
theorem analyse_announced {symbols after : Symbols} {earlier : List String}
    (h : Within symbols earlier) (visible : List String) (s : Node)
    (hAccepted : analyse symbols s = ⟨after, none⟩) :
    Announced (readings visible earlier s) := by
  cases s with
  | declaration name type value constant =>
      cases accepted_of_analyse hAccepted with
      | declaration _ hTyped =>
          rw [readings]
          exact announced_of_typeOf h visible hTyped
  | returnStatement value =>
      rw [readings]
      cases accepted_of_analyse hAccepted with
      | returnNothing => exact fun _ hr => nomatch hr
      | returnValue hTyped => exact announced_of_typeOf h visible hTyped
  | showStatement value =>
      cases accepted_of_analyse hAccepted with
      | shown hTyped =>
          rw [readings]
          exact announced_of_typeOf h visible hTyped
  | ifStatement condition thenBlock elseBlock =>
      rw [readings]
      cases accepted_of_analyse hAccepted with
      | branch hTyped hThen =>
          refine ((announced_of_typeOf h visible hTyped).append ?_).append fun _ hr => nomatch hr
          exact analyseBlock_announced h visible thenBlock hThen
      | branches hTyped hThen hElse =>
          refine ((announced_of_typeOf h visible hTyped).append ?_).append ?_
          · exact analyseBlock_announced h visible thenBlock hThen
          · exact analyseBlock_announced (analyseBlock_within h thenBlock hThen) visible
              elseBlock hElse
  | whileStatement condition body =>
      cases accepted_of_analyse hAccepted with
      | loop hTyped hBody =>
          rw [readings]
          exact (announced_of_typeOf h visible hTyped).append
            (analyseBlock_announced h visible body hBody)
  | forStatement iterator iterable body =>
      cases accepted_of_analyse hAccepted with
      | forEach hTyped hBody =>
          rw [readings]
          exact (announced_of_typeOf h visible hTyped).append
            (analyseBlock_announced h (iterator :: visible) body hBody)
  | program statements => exact fun _ hr => nomatch hr
  | functionDeclaration name parameters result body async => exact fun _ hr => nomatch hr
  | _ => cases accepted_of_analyse hAccepted

/-- The readings in an accepted block are of names declared before them. -/
theorem analyseBlock_announced {symbols after : Symbols} {earlier : List String}
    (h : Within symbols earlier) (visible : List String) (block : Node)
    (hAccepted : analyseBlock symbols block = ⟨after, none⟩) :
    Announced (blockReadings visible earlier block) := by
  cases block with
  | block statements =>
      rw [analyseBlock] at hAccepted
      rw [blockReadings]
      exact analyseAll_announced h visible statements hAccepted
  | program statements =>
      rw [analyseBlock] at hAccepted
      rw [blockReadings]
      exact analyseAll_announced h visible statements hAccepted
  | _ =>
      simp only [analyseBlock] at hAccepted
      cases hAccepted

/-- The readings in accepted statements are of names declared before them, by
earlier statements among others. -/
theorem analyseAll_announced {symbols after : Symbols} {earlier : List String}
    (h : Within symbols earlier) (visible : List String) (statements : List Node)
    (hAccepted : analyseAll symbols statements = ⟨after, none⟩) :
    Announced (readingsAll visible earlier statements) := by
  cases statements with
  | nil => exact fun _ hr => nomatch hr
  | cons s rest =>
      obtain ⟨between, hFirst, hRest⟩ := analyseAll_cons_ok hAccepted
      rw [readingsAll]
      exact (analyse_announced h visible s hFirst).append
        (analyseAll_announced (analyse_within h s hFirst) (declaredHere s ++ visible) rest hRest)

end

/-- A run of an accepted script misses a name only where the script reads it
out of the sight of its declaration: before it, the name is declared as a
variable or a parameter, but neither in the block of the reading nor in a block
around that. A script that reads its names in their own blocks, at whatever
depth, never misses one. -/
theorem undefinedVariable_out_of_block {statements : List Node} {name : String} (rounds : Nat)
    (hAccepted : (analyse .empty (.program statements)).fault = none)
    (hFailed : (interpret rounds (.program statements) .fresh).2 =
      .failed (.undefinedVariable name)) :
    ∃ r ∈ readingsAll [] [] statements, r.name = name ∧ name ∉ r.visible ∧
      name ∈ r.earlier := by
  have hSees : Sees Machine.fresh.frames [] :=
    ⟨List.cons_ne_nil _ _, fun _ hName => nomatch hName⟩
  obtain ⟨r, hr, hName, hHidden⟩ :=
    executeAll_missesAt rounds statements .fresh [] [] name hSees hFailed
  have hWithin : Within .empty [] := fun _ _ hDeclared => nomatch hDeclared
  have hAll : analyseAll .empty statements =
      ⟨(analyse .empty (.program statements)).symbols, none⟩ := by
    rw [← hAccepted, analyse]
  have hEarlier := analyseAll_announced hWithin [] statements hAll r hr
  exact ⟨r, hr, hName, hHidden, hName ▸ hEarlier⟩

/-- A parameter, read after its function. -/
theorem undefinedVariable_out_of_block_parameter :
    let statements : List Node := [
      .functionDeclaration "twice" [⟨"n", some .int⟩] (some .int)
        (.block [.returnStatement (.binary (.identifier "n") "+" (.identifier "n"))]) false,
      .declaration "k" (some .int) (.number (.int 2)) false,
      .whileStatement (.bool true) (.block
        [.showStatement (.binary (.identifier "k") "*" (.identifier "n"))])]
    (analyse .empty (.program statements)).fault = none ∧
      (interpret 1 (.program statements) .fresh).2 = .failed (.undefinedVariable "n") ∧
      ∃ r ∈ readingsAll [] [] statements, r.name = "n" ∧ "n" ∉ r.visible ∧
      "n" ∈ r.earlier :=
  ⟨rfl, rfl, undefinedVariable_out_of_block 1 rfl rfl⟩

/-- A variable of a block that has been closed is still known to analysis, and
a run does not find it. -/
theorem accepted_undefinedVariable :
    let script : Node := .program [
      .ifStatement (.bool true) (.block [.declaration "x" (some .int) (.number (.int 1)) false])
        .missing,
      .showStatement (.identifier "x")]
    (analyse .empty script).fault = none ∧
      ∀ rounds, (interpret rounds script .fresh).2 = .failed (.undefinedVariable "x") :=
  ⟨rfl, fun _ => rfl⟩

end PageScript.Analysis
