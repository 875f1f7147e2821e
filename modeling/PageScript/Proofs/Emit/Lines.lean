import PageScript.Emit
import PageScript.Proofs.Progress
import PageScript.Proofs.Text.SingleLine

/-! The lines that a script is emitted as. All the ways in which a statement is
emitted are said once. If no name, operator or text of a script has a line end,
then each piece of emitted text is one line, and the whole text falls into the
same lines again. -/
namespace PageScript.Emit

open Progress

/-! ### Emitted statements -/

/-- The ways in which a statement is emitted, and the lines it is emitted
as. -/
inductive Emits : Node → List String → Prop where
  | program {statements : List Node} {lines : List String}
      (all : emitAll statements = ⟨lines, none⟩) :
      Emits (.program statements) lines
  | declaration {name : String} {type : Option Ty} {value : Node} {constant : Bool} {line : String}
      (written : Emit.declaration name type value constant = .ok line) :
      Emits (.declaration name type value constant) [line]
  | function {name : String} {parameters : List Parameter} {result : Option Ty} {body : Node}
      {async : Bool}
      {head : String} {lines : List String}
      (written : functionHead name parameters result async = .ok head)
      (inside : emitBlock body = ⟨lines, none⟩) :
      Emits (.functionDeclaration name parameters result body async) (head :: (lines ++ [closing]))
  | returnNothing : Emits (.returnStatement .missing) ["return;"]
  | returned {value : Node} {line : String} (written : lineOf "return " value ";" = .ok line) :
      Emits (.returnStatement value) [line]
  | shown {value : Node} {line : String} (written : lineOf "show(" value ");" = .ok line) :
      Emits (.showStatement value) [line]
  | deleted (name : String) : Emits (.deleteStatement name) ["delete(" ++ name ++ ");"]
  | expression {value : Node} {line : String} (written : lineOf "" value ";" = .ok line) :
      Emits (.expressionStatement value) [line]
  | branch {condition thenBlock : Node} {head : String} {lines : List String}
      (written : lineOf "if (" condition ") \x7b" = .ok head)
      (inside : emitBlock thenBlock = ⟨lines, none⟩) :
      Emits (.ifStatement condition thenBlock .missing) (head :: (lines ++ [closing]))
  | branches {condition thenBlock elseBlock : Node} {head : String} {lines others : List String}
      (written : lineOf "if (" condition ") \x7b" = .ok head)
      (inside : emitBlock thenBlock = ⟨lines, none⟩)
      (otherwise : emitBlock elseBlock = ⟨others, none⟩) :
      Emits (.ifStatement condition thenBlock elseBlock)
        (head :: (lines ++ [closing]) ++ "else \x7b" :: (others ++ [closing]))
  | loop {condition body : Node} {head : String} {lines : List String}
      (written : lineOf "while (" condition ") \x7b" = .ok head)
      (inside : emitBlock body = ⟨lines, none⟩) :
      Emits (.whileStatement condition body) (head :: (lines ++ [closing]))
  | forEach {iterator : String} {iterable body : Node} {head : String} {lines : List String}
      (written : lineOf ("for (let " ++ iterator ++ " of ") iterable ") \x7b" = .ok head)
      (inside : emitBlock body = ⟨lines, none⟩) :
      Emits (.forStatement iterator iterable body) (head :: (lines ++ [closing]))

section inversion

variable {lines : List String}

theorem withResult_one_eq_iff {result : Except Fault String} :
    withResult result one = ⟨lines, none⟩ ↔ ∃ line, result = .ok line ∧
      lines = [line] := by
  simp [withResult_eq_iff]

/-- A statement in braces is emitted exactly if its opening line has a text and
its body is emitted, and its lines are these with the closing brace behind
them. -/
theorem braced_eq_iff {opening : Except Fault String} {body : Unit → Progress String} :
    braced opening body = ⟨lines, none⟩ ↔
      ∃ head inside, opening = .ok head ∧ body () = ⟨inside, none⟩ ∧
        lines = head :: (inside ++ [closing]) := by
  simp only [braced, andThen_eq_iff, withResult_one_eq_iff, one_eq_iff]
  constructor
  · rintro ⟨_, _, ⟨_, inside, ⟨head, hHead, rfl⟩, hBody, rfl⟩, rfl, rfl⟩
    exact ⟨head, inside, hHead, hBody, rfl⟩
  · rintro ⟨head, inside, hHead, hBody, rfl⟩
    exact ⟨_, _, ⟨_, inside, ⟨head, hHead, rfl⟩, hBody, rfl⟩, rfl, rfl⟩

/-- Statements are emitted exactly if the first one is and the others are, and
their lines follow one another. -/
theorem emitAll_cons_iff {s : Node} {rest : List Node} : emitAll (s :: rest) = ⟨lines, none⟩ ↔
    ∃ first others, emit s = ⟨first, none⟩ ∧ emitAll rest = ⟨others, none⟩ ∧
      lines = first ++ others := by
  rw [emitAll, andThen_eq_iff]

/-- All that an emitted statement rests on. One case for each sort of
statement; later proofs take the cases from here and do not open the emission
again. -/
theorem emits_of_emit {s : Node} (h : emit s = ⟨lines, none⟩) : Emits s lines := by
  cases s with
  | program statements =>
      rw [emit] at h
      exact .program h
  | declaration name type value constant =>
      rw [emit, withResult_one_eq_iff] at h
      obtain ⟨line, hLine, rfl⟩ := h
      exact .declaration hLine
  | functionDeclaration name parameters result body async =>
      rw [emit, braced_eq_iff] at h
      obtain ⟨head, inside, hHead, hBody, rfl⟩ := h
      exact .function hHead hBody
  | returnStatement value =>
      by_cases hMissing : value = .missing
      · subst hMissing
        rw [emit, one_eq_iff] at h
        subst h
        exact .returnNothing
      · rw [emit] at h
        · obtain ⟨line, hLine, rfl⟩ := withResult_one_eq_iff.mp h
          exact .returned hLine
        · exact hMissing
  | showStatement value =>
      rw [emit, withResult_one_eq_iff] at h
      obtain ⟨line, hLine, rfl⟩ := h
      exact .shown hLine
  | deleteStatement name =>
      rw [emit, one_eq_iff] at h
      subst h
      exact .deleted name
  | ifStatement condition thenBlock elseBlock =>
      by_cases hMissing : elseBlock = .missing
      · subst hMissing
        rw [emit, andThen_eq_iff] at h
        obtain ⟨front, _, hFront, hElse, rfl⟩ := h
        obtain ⟨head, inside, hHead, hThen, rfl⟩ := braced_eq_iff.mp hFront
        cases hElse
        rw [List.append_nil]
        exact .branch hHead hThen
      · rw [emit] at h
        · rw [andThen_eq_iff] at h
          obtain ⟨front, back, hFront, hElse, rfl⟩ := h
          obtain ⟨head, inside, hHead, hThen, rfl⟩ := braced_eq_iff.mp hFront
          obtain ⟨_, others, hOpening, hOthers, rfl⟩ := braced_eq_iff.mp hElse
          cases hOpening
          exact .branches hHead hThen hOthers
        · exact hMissing
  | whileStatement condition body =>
      rw [emit, braced_eq_iff] at h
      obtain ⟨head, inside, hHead, hBody, rfl⟩ := h
      exact .loop hHead hBody
  | forStatement iterator iterable body =>
      rw [emit, braced_eq_iff] at h
      obtain ⟨head, inside, hHead, hBody, rfl⟩ := h
      exact .forEach hHead hBody
  | expressionStatement value =>
      rw [emit, withResult_one_eq_iff] at h
      obtain ⟨line, hLine, rfl⟩ := h
      exact .expression hLine
  | _ => simp [emit] at h

end inversion

/-! ### The texts of a line -/

section written

variable {line : String}

/-- A line around an expression is the text of the expression between the given
pieces. -/
theorem lineOf_ok {before after : String} {n : Node} (h : lineOf before n after = .ok line) :
    ∃ text, expression n = .ok text ∧ line = before ++ text ++ after := by
  rw [lineOf, bind_eq_ok_iff] at h
  obtain ⟨text, hText, hLine⟩ := h
  cases hLine
  exact ⟨text, hText, rfl⟩

/-- All parts of the line that a declaration is emitted as. -/
theorem declaration_ok {name : String} {type : Option Ty} {value : Node} {constant : Bool}
    (h : declaration name type value constant = .ok line) :
    ∃ typeText valueText, typeName type = .ok typeText ∧ expression value = .ok valueText ∧
      line = (if constant then "const " else "") ++ typeText ++ " " ++ name ++ " = " ++
        valueText ++ ";" := by
  rw [declaration, bind_eq_ok_iff] at h
  obtain ⟨typeText, hType, h⟩ := h
  rw [bind_eq_ok_iff] at h
  obtain ⟨valueText, hValue, hLine⟩ := h
  cases hLine
  exact ⟨typeText, valueText, hType, hValue, rfl⟩

/-- Each part of a parameter list is a parameter behind its type. The induction
is on the parameters, which are written one after the other. -/
theorem parameterList_ok {parameters : List Parameter} {text : String}
    (h : parameterList parameters = .ok text) :
    ∃ parts, text = ", ".intercalate parts ∧ ∀ part ∈ parts, ∃ p ∈ parameters,
      ∃ typeText,
      typeName p.type = .ok typeText ∧ part = typeText ++ " " ++ p.name := by
  rw [parameterList, bind_eq_ok_iff] at h
  obtain ⟨parts, hParts, hText⟩ := h
  cases hText
  refine ⟨parts, rfl, ?_⟩
  induction parameters generalizing parts with
  | nil =>
      cases hParts
      exact List.forall_mem_nil _
  | cons p rest ih =>
      rw [List.mapM_cons, bind_eq_ok_iff] at hParts
      obtain ⟨first, hFirst, hParts⟩ := hParts
      rw [bind_eq_ok_iff] at hFirst hParts
      obtain ⟨typeText, hType, hFirst⟩ := hFirst
      obtain ⟨others, hOthers, hParts⟩ := hParts
      cases hFirst
      cases hParts
      intro part hPart
      rcases List.mem_cons.mp hPart with rfl | hPart
      · exact ⟨p, .head _, typeText, hType, rfl⟩
      · obtain ⟨q, hq, hPart⟩ := ih others hOthers part hPart
        exact ⟨q, .tail _ hq, hPart⟩

/-- All parts of the line that a function begins with. -/
theorem functionHead_ok {name : String} {parameters : List Parameter} {result : Option Ty}
    {async : Bool} (h : functionHead name parameters result async = .ok line) :
    ∃ resultText parametersText, typeName result = .ok resultText ∧
      parameterList parameters = .ok parametersText ∧
      line = (if async then "async " else "") ++ "function " ++ name ++ "(" ++
        parametersText ++ "): " ++
        resultText ++ " \x7b" := by
  rw [functionHead, bind_eq_ok_iff] at h
  obtain ⟨resultText, hResult, h⟩ := h
  rw [bind_eq_ok_iff] at h
  obtain ⟨parametersText, hParameters, hLine⟩ := h
  cases hLine
  exact ⟨resultText, parametersText, hResult, hParameters, rfl⟩

end written

/-! ### Single lines -/

/-- The name that a type is written by, if it brings one of its own. -/
def typeTexts : Option Ty → List String
  | some (.custom name) => [name]
  | _ => []

mutual

/-- The names, operators and texts that a node is written with. -/
def texts : Node → List String
  | .program statements => textsAll statements
  | .block statements => textsAll statements
  | .declaration name type value _ => name :: (typeTexts type ++ texts value)
  | .functionDeclaration name parameters result body _ =>
    name :: (typeTexts result ++ parameters.flatMap (fun p => p.name :: typeTexts p.type) ++
      texts body)
  | .returnStatement value => texts value
  | .showStatement value => texts value
  | .deleteStatement name => [name]
  | .expressionStatement value => texts value
  | .ifStatement condition thenBlock elseBlock =>
    texts condition ++ texts thenBlock ++ texts elseBlock
  | .whileStatement condition body => texts condition ++ texts body
  | .forStatement iterator iterable body => iterator :: (texts iterable ++ texts body)
  | .binary left operator right => operator :: (texts left ++ texts right)
  | .unary operator operand => operator :: texts operand
  | .number value => value.texts
  | .string value => [value]
  | .identifier name => [name]
  | .call function arguments => texts function ++ textsAll arguments
  | .member object name => name :: texts object
  | .memberNode object _ => texts object
  | .await operand => texts operand
  | _ => []

def textsAll : List Node → List String
  | [] => []
  | n :: rest => texts n ++ textsAll rest

end

/-- The name of a type has no line end if the names in the type have none. -/
theorem singleLine_typeName {type : Option Ty} {text : String} (h : typeName type = .ok text)
    (hTexts : ∀ t ∈ typeTexts type, SingleLine t) : SingleLine text := by
  cases type with
  | none =>
      cases h
      decide
  | some t =>
      cases t with
      | custom name =>
          cases h
          exact hTexts _ (.head _)
      | named | generic | any => cases h
      | _ =>
          cases h
          decide

theorem singleLine_kindName (n : Node) : SingleLine n.kindName := by
  cases n <;> simp only [Node.kindName] <;> decide

theorem singleLine_display (n : Node) : SingleLine n.display := by
  fun_induction Node.display n with
  | case1 => decide
  | case2 value ih | case3 value ih =>
      simp only [singleLine_append]
      exact ⟨⟨by decide, ih⟩, by decide⟩
  | case4 n =>
      simp only [singleLine_append]
      exact ⟨⟨by decide, singleLine_kindName n⟩, by decide⟩

mutual

/-- An expression is written on one line if all its texts are. Numbers and the
marks between the parts have no line ends of their own. -/
theorem singleLine_expression (n : Node) {text : String} (h : expression n = .ok text)
    (hTexts : ∀ t ∈ texts n, SingleLine t) : SingleLine text := by
  cases n with
  | binary left operator right =>
      rw [expression, bind_eq_ok_iff] at h
      obtain ⟨l, hLeft, h⟩ := h
      rw [bind_eq_ok_iff] at h
      obtain ⟨r, hRight, h⟩ := h
      cases h
      simp only [texts, List.mem_cons, List.mem_append, forall_eq_or_imp] at hTexts
      have hl := singleLine_expression left hLeft fun t ht => hTexts.2 t (.inl ht)
      have hr := singleLine_expression right hRight fun t ht => hTexts.2 t (.inr ht)
      simp only [singleLine_append]
      exact ⟨⟨⟨⟨⟨⟨by decide, hl⟩, by decide⟩, hTexts.1⟩, by decide⟩, hr⟩,
        by decide⟩
  | unary operator operand =>
      rw [expression, bind_eq_ok_iff] at h
      obtain ⟨x, hOperand, h⟩ := h
      cases h
      simp only [texts, List.mem_cons, forall_eq_or_imp] at hTexts
      have hx := singleLine_expression operand hOperand hTexts.2
      simp only [singleLine_append]
      exact ⟨⟨⟨by decide, hTexts.1⟩, hx⟩, by decide⟩
  | number value =>
      rw [expression] at h
      cases hWrite : value.write with
      | error fault =>
          rw [hWrite] at h
          cases h
      | ok written =>
          rw [hWrite] at h
          cases h
          exact Value.singleLine_write hWrite hTexts
  | string value =>
      cases h
      simp only [singleLine_append]
      exact ⟨⟨by decide, hTexts value (.head _)⟩, by decide⟩
  | bool value =>
      cases h
      cases value <;> decide
  | identifier name =>
      cases h
      exact hTexts _ (.head _)
  | call function arguments =>
      rw [expression, bind_eq_ok_iff] at h
      obtain ⟨f, hFunction, h⟩ := h
      rw [bind_eq_ok_iff] at h
      obtain ⟨parts, hArguments, h⟩ := h
      cases h
      simp only [texts, List.mem_append] at hTexts
      have hf := singleLine_expression function hFunction fun t ht => hTexts t (.inl ht)
      have hParts := singleLine_expressions arguments hArguments fun t ht => hTexts t (.inr ht)
      simp only [singleLine_append]
      exact ⟨⟨⟨hf, by decide⟩, singleLine_intercalate (by decide) hParts⟩, by decide⟩
  | member object name =>
      rw [expression, bind_eq_ok_iff] at h
      obtain ⟨o, hObject, h⟩ := h
      cases h
      simp only [texts, List.mem_cons, forall_eq_or_imp] at hTexts
      have ho := singleLine_expression object hObject hTexts.2
      simp only [singleLine_append]
      exact ⟨⟨ho, by decide⟩, hTexts.1⟩
  | memberNode object part =>
      rw [expression, bind_eq_ok_iff] at h
      obtain ⟨o, hObject, h⟩ := h
      cases h
      have ho := singleLine_expression object hObject hTexts
      simp only [singleLine_append]
      exact ⟨⟨ho, by decide⟩, singleLine_display part⟩
  | await operand =>
      rw [expression, bind_eq_ok_iff] at h
      obtain ⟨x, hOperand, h⟩ := h
      cases h
      exact singleLine_append.mpr ⟨by decide, singleLine_expression operand hOperand hTexts⟩
  | _ => cases h

/-- The texts of expressions have no line ends if the texts in them have
none. -/
theorem singleLine_expressions (ns : List Node) {parts : List String}
    (h : expressions ns = .ok parts) (hTexts : ∀ t ∈ textsAll ns, SingleLine t) :
    ∀ part ∈ parts, SingleLine part := by
  cases ns with
  | nil =>
      cases h
      exact List.forall_mem_nil _
  | cons n rest =>
      rw [expressions, bind_eq_ok_iff] at h
      obtain ⟨first, hFirst, h⟩ := h
      rw [bind_eq_ok_iff] at h
      obtain ⟨others, hOthers, h⟩ := h
      cases h
      simp only [textsAll, List.mem_append] at hTexts
      intro part hPart
      rcases List.mem_cons.mp hPart with rfl | hPart
      · exact singleLine_expression n hFirst fun t ht => hTexts t (.inl ht)
      · exact singleLine_expressions rest hOthers (fun t ht => hTexts t (.inr ht)) part hPart

end

section lines

variable {line : String}

theorem singleLine_lineOf {before after : String} {n : Node} (h : lineOf before n after = .ok line)
    (hBefore : SingleLine before) (hAfter : SingleLine after)
    (hTexts : ∀ t ∈ texts n, SingleLine t) :
    SingleLine line := by
  obtain ⟨text, hText, rfl⟩ := lineOf_ok h
  simp only [singleLine_append]
  exact ⟨⟨hBefore, singleLine_expression n hText hTexts⟩, hAfter⟩

/-- A declaration is one line if none of its texts has a line end. -/
theorem singleLine_declaration {name : String} {type : Option Ty} {value : Node} {constant : Bool}
    (h : declaration name type value constant = .ok line)
    (hTexts : ∀ t ∈ texts (.declaration name type value constant), SingleLine t) :
    SingleLine line := by
  obtain ⟨typeText, valueText, hType, hValue, rfl⟩ := declaration_ok h
  simp only [texts, List.mem_cons, List.mem_append, forall_eq_or_imp] at hTexts
  have ht := singleLine_typeName hType fun t ht => hTexts.2 t (.inl ht)
  have hv := singleLine_expression value hValue fun t ht => hTexts.2 t (.inr ht)
  have hConstant : SingleLine (if constant then "const " else "") := by cases constant <;> decide
  simp only [singleLine_append]
  exact ⟨⟨⟨⟨⟨⟨hConstant, ht⟩, by decide⟩, hTexts.1⟩, by decide⟩, hv⟩,
    by decide⟩

/-- A parameter list is one line if the names and types in it have no line
ends. -/
theorem singleLine_parameterList {parameters : List Parameter} {text : String}
    (h : parameterList parameters = .ok text)
    (hTexts : ∀ p ∈ parameters, SingleLine p.name ∧ ∀ t ∈ typeTexts p.type,
      SingleLine t) :
    SingleLine text := by
  obtain ⟨parts, rfl, hParts⟩ := parameterList_ok h
  apply singleLine_intercalate (by decide)
  intro part hPart
  obtain ⟨p, hp, typeText, hType, rfl⟩ := hParts part hPart
  obtain ⟨hName, hTypeTexts⟩ := hTexts p hp
  simp only [singleLine_append]
  exact ⟨⟨singleLine_typeName hType hTypeTexts, by decide⟩, hName⟩

/-- The head of a function is one line if none of its texts has a line end. -/
theorem singleLine_functionHead {name : String} {parameters : List Parameter} {result : Option Ty}
    {body : Node} {async : Bool} (h : functionHead name parameters result async = .ok line)
    (hTexts : ∀ t ∈ texts (.functionDeclaration name parameters result body async),
      SingleLine t) :
    SingleLine line := by
  obtain ⟨resultText, parametersText, hResult, hParameters, rfl⟩ := functionHead_ok h
  simp only [texts, List.mem_cons, List.mem_append, List.mem_flatMap, forall_eq_or_imp] at hTexts
  have hr := singleLine_typeName hResult fun t ht => hTexts.2 t (.inl (.inl ht))
  have hp := singleLine_parameterList hParameters fun p hp =>
    ⟨hTexts.2 _ (.inl (.inr ⟨p, hp, .inl rfl⟩)), fun t ht =>
      hTexts.2 t (.inl (.inr ⟨p, hp, .inr ht⟩))⟩
  have hAsync : SingleLine (if async then "async " else "") := by cases async <;> decide
  simp only [singleLine_append]
  exact ⟨⟨⟨⟨⟨⟨⟨hAsync, by decide⟩, hTexts.1⟩, by decide⟩, hp⟩, by decide⟩,
    hr⟩, by decide⟩

/-- Lines between an opening line and the closing one. -/
theorem singleLine_braced {head : String} {lines : List String} (hHead : SingleLine head)
    (hLines : ∀ l ∈ lines, SingleLine l) :
    ∀ l ∈ head :: (lines ++ [closing]), SingleLine l := by
  intro l hl
  simp only [List.mem_cons, List.mem_append, List.not_mem_nil, or_false] at hl
  rcases hl with rfl | hl | rfl
  · exact hHead
  · exact hLines l hl
  · decide

end lines

mutual

/-- A statement is emitted as single lines if all its texts are. The recursion
is that of the emission, and each line is put together from texts of the
statement. -/
theorem singleLine_of_emit (s : Node) {lines : List String} (h : emit s = ⟨lines, none⟩)
    (hTexts : ∀ t ∈ texts s, SingleLine t) : ∀ l ∈ lines, SingleLine l := by
  cases s with
  | program statements =>
      cases emits_of_emit h with
      | program all => exact singleLine_of_emitAll statements all hTexts
  | declaration name type value constant =>
      cases emits_of_emit h with
      | declaration written => simpa using singleLine_declaration written hTexts
  | functionDeclaration name parameters result body async =>
      cases emits_of_emit h with
      | function written inside =>
          apply singleLine_braced (singleLine_functionHead written hTexts)
          exact singleLine_of_emitBlock body inside fun t ht => hTexts t (by simp [texts, ht])
  | returnStatement value =>
      cases emits_of_emit h with
      | returnNothing =>
          rw [List.forall_mem_singleton]
          decide
      | returned written => simpa using singleLine_lineOf written (by decide) (by decide) hTexts
  | showStatement value =>
      cases emits_of_emit h with
      | shown written => simpa using singleLine_lineOf written (by decide) (by decide) hTexts
  | deleteStatement name =>
      cases emits_of_emit h with
      | deleted =>
          rw [List.forall_mem_singleton, singleLine_append, singleLine_append]
          exact ⟨⟨by decide, hTexts name (.head _)⟩, by decide⟩
  | expressionStatement value =>
      cases emits_of_emit h with
      | expression written => simpa using singleLine_lineOf written (by decide) (by decide) hTexts
  | ifStatement condition thenBlock elseBlock =>
      simp only [texts, List.mem_append] at hTexts
      have hCondition (t : String) (ht : t ∈ texts condition) := hTexts t (.inl (.inl ht))
      have hThen (t : String) (ht : t ∈ texts thenBlock) := hTexts t (.inl (.inr ht))
      cases emits_of_emit h with
      | branch written inside =>
          exact singleLine_braced (singleLine_lineOf written (by decide) (by decide) hCondition)
            (singleLine_of_emitBlock thenBlock inside hThen)
      | branches written inside otherwise =>
          have hFront :=
            singleLine_braced (singleLine_lineOf written (by decide) (by decide) hCondition)
            (singleLine_of_emitBlock thenBlock inside hThen)
          have hElse := singleLine_of_emitBlock elseBlock otherwise fun t ht => hTexts t (.inr ht)
          have hOpening : SingleLine "else \x7b" := by decide
          have hBack := singleLine_braced hOpening hElse
          intro l hl
          rcases List.mem_append.mp hl with hl | hl
          · exact hFront l hl
          · exact hBack l hl
  | whileStatement condition body =>
      simp only [texts, List.mem_append] at hTexts
      cases emits_of_emit h with
      | loop written inside =>
          exact singleLine_braced
            (singleLine_lineOf written (by decide) (by decide) fun t ht => hTexts t (.inl ht))
            (singleLine_of_emitBlock body inside fun t ht => hTexts t (.inr ht))
  | forStatement iterator iterable body =>
      simp only [texts, List.mem_cons, List.mem_append, forall_eq_or_imp] at hTexts
      have hBefore : SingleLine ("for (let " ++ iterator ++ " of ") := by
        simp only [singleLine_append]
        exact ⟨⟨by decide, hTexts.1⟩, by decide⟩
      cases emits_of_emit h with
      | forEach written inside =>
          exact singleLine_braced
            (singleLine_lineOf written hBefore (by decide) fun t ht => hTexts.2 t (.inl ht))
            (singleLine_of_emitBlock body inside fun t ht => hTexts.2 t (.inr ht))
  | _ => cases emits_of_emit h

/-- The pieces that a block is emitted as are single lines. -/
theorem singleLine_of_emitBlock (block : Node) {lines : List String}
    (h : emitBlock block = ⟨lines, none⟩) (hTexts : ∀ t ∈ texts block, SingleLine t) :
    ∀ l ∈ lines, SingleLine l := by
  cases block with
  | block statements =>
      rw [emitBlock] at h
      exact singleLine_of_emitAll statements h hTexts
  | program statements =>
      rw [emitBlock] at h
      exact singleLine_of_emitAll statements h hTexts
  | _ => simp [emitBlock] at h

/-- The pieces that statements are emitted as are single lines. -/
theorem singleLine_of_emitAll (statements : List Node) {lines : List String}
    (h : emitAll statements = ⟨lines, none⟩)
    (hTexts : ∀ t ∈ textsAll statements, SingleLine t) :
    ∀ l ∈ lines, SingleLine l := by
  cases statements with
  | nil =>
      rw [emitAll, nothing_eq_iff] at h
      subst h
      exact List.forall_mem_nil _
  | cons s rest =>
      obtain ⟨first, others, hFirst, hOthers, rfl⟩ := emitAll_cons_iff.mp h
      simp only [textsAll, List.mem_append] at hTexts
      intro l hl
      rcases List.mem_append.mp hl with hl | hl
      · exact singleLine_of_emit s hFirst (fun t ht => hTexts t (.inl ht)) l hl
      · exact singleLine_of_emitAll rest hOthers (fun t ht => hTexts t (.inr ht)) l hl

end

/-! ### Lines as one text -/

/-- The lines of a text. A text without characters has no lines. -/
def linesOf (text : String) : List String :=
  if text = "" then [] else (text.toList.splitOn '\n').map String.ofList

/-- Single lines are found again in their joined text, unless it is empty. A
single empty line could not be told from no line at all, so no line may be
empty. -/
theorem linesOf_joinLines {lines : List String} (hLines : ∀ l ∈ lines, SingleLine l)
    (hSome : ∀ l ∈ lines, l ≠ "") : linesOf (joinLines lines) = lines := by
  cases lines with
  | nil => simp [linesOf, joinLines]
  | cons l rest =>
      have hText : (joinLines (l :: rest)).toList =
          ['\n'].intercalate ((l :: rest).map String.toList) := by
        simp [joinLines, String.toList_intercalate]
      have hNonempty : joinLines (l :: rest) ≠ "" := by
        intro hEmpty
        rw [hEmpty] at hText
        cases rest with
        | nil =>
            have hl := hSome l (.head _)
            simp_all
        | cons r others => simp [List.intercalate] at hText
      rw [linesOf, if_neg hNonempty, hText, List.splitOn_intercalate]
      · simp [Function.comp_def]
      · intro cs hcs
        obtain ⟨m, hm, rfl⟩ := List.mem_map.mp hcs
        exact hLines m hm
      · simp

end PageScript.Emit
