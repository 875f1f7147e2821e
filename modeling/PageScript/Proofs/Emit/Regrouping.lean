import PageScript.Proofs.Emit.Unambiguous

/-! Waiting is written without parentheses, so that calls and members behind it
are read as parts of what it waits for. Main statement: two expressions of
parsed programs have the same text exactly if they are equal once such calls
and members are moved inside and the numbers written as words have become
names. -/
namespace PageScript

namespace Node

/-- Moves what stands behind waiting into what it waits for. -/
def attach (more : Node → Node) : Node → Node
  | await operand => await (attach more operand)
  | n => more n

mutual

/-- The expression that the text of an expression is read as. -/
def regroup : Node → Node
  | binary left operator right => binary (regroup left) operator (regroup right)
  | unary operator operand => unary operator (regroup operand)
  | await operand => await (regroup operand)
  | call function arguments => attach (call · (regroupAll arguments)) (regroup function)
  | member object name => attach (member · name) (regroup object)
  | number value => match value.write with
    | .ok word => if Numeral.wordNumbers.contains word then identifier word else number value
    | .error _ => number value
  | n => n

def regroupAll : List Node → List Node
  | [] => []
  | n :: rest => regroup n :: regroupAll rest

end

theorem regroupAll_eq_map (ns : List Node) : regroupAll ns = ns.map regroup := by
  induction ns with
  | nil => rfl
  | cons n rest ih => rw [regroupAll, ih, List.map_cons]

/-- A number is regrouped as the name that it is written as, if it is written
as a word. -/
theorem regroup_number {value : Value} {word : String} (h : value.write = .ok word) :
    regroup (number value) = if Numeral.wordNumbers.contains word then identifier word else
      number value := by
  rw [regroup, h]

theorem regroup_identifier (name : String) : regroup (identifier name) = identifier name := rfl

theorem attach_of_isAwait {n : Node} (h : n.isAwait = false) (more : Node → Node) :
    attach more n = more n := by
  cases n with
  | await _ => cases h
  | _ => rfl

/-- A node shows its form if it does so itself and everything in it does. -/
theorem showsForm_iff {n : Node} :
    n.ShowsForm ↔ n.showsForm = true ∧ ∀ child ∈ n.children, child.ShowsForm := by
  constructor
  · exact fun h => ⟨h n .here, fun child hChild => h.child hChild⟩
  · rintro ⟨hHere, hInside⟩ part hPart
    cases hPart with
    | here => exact hHere
    | inside hChild hDeeper => exact hInside _ hChild part hDeeper

theorem isName_of_mem {word : String} (h : word ∈ Numeral.wordNumbers) : Lexer.IsName word := by
  have hWord : word = "inf" ∨ word = "nan" := by simpa [Numeral.wordNumbers] using h
  rcases hWord with rfl | rfl
  · exact ⟨⟨'i', ['n', 'f'], rfl, by decide, List.all_eq_true.mp rfl⟩, by decide⟩
  · exact ⟨⟨'n', ['a', 'n'], rfl, by decide, List.all_eq_true.mp rfl⟩, by decide⟩

section attach

variable {more : Node → Node} {n : Node}

/-- Attaching a call or a member to an expression gives an expression, whether
it waits or not. -/
theorem isExpression_attach (hMore : ∀ m, IsExpression m → IsExpression (more m))
    (h : IsExpression n) :
    IsExpression (attach more n) := by
  fun_induction attach more n with
  | case1 operand ih =>
      cases h with
      | await inner => exact .await (ih inner)
  | case2 n hOther => exact hMore n h

/-- What is attached to waiting moves inside, so the result shows its form if
the parts do. -/
theorem showsForm_attach (hMore : ∀ m : Node, m.isAwait = false → m.ShowsForm →
      (more m).ShowsForm) (h : n.ShowsForm) :
    (attach more n).ShowsForm := by
  fun_induction attach more n with
  | case1 operand ih =>
      exact showsForm_iff.mpr ⟨rfl, List.forall_mem_singleton.mpr (ih (h.child (.head _)))⟩
  | case2 n hOther =>
      refine hMore n ?_ h
      cases n with
      | await operand => exact absurd rfl (hOther operand)
      | _ => rfl

end attach

/-! ### Regrouped expressions -/

/-- A number is written as a word and becomes a name, or it stays as it is. -/
theorem regroup_number_cases {value : Value} (h : IsNumeral value) :
    ∃ word, value.write = .ok word ∧
      (word ∈ Numeral.wordNumbers ∧ regroup (number value) = identifier word ∨
        word ∉ Numeral.wordNumbers ∧ regroup (number value) = number value) := by
  obtain ⟨word, hWord⟩ := h.exists_write
  refine ⟨word, hWord, ?_⟩
  rw [regroup_number hWord]
  by_cases hListed : word ∈ Numeral.wordNumbers
  · exact .inl ⟨hListed, if_pos (List.contains_iff_mem.mpr hListed)⟩
  · exact .inr ⟨hListed, if_neg (mt List.contains_iff_mem.mp hListed)⟩

/-- Regrouping an expression that a script can write gives another one. -/
theorem isExpression_regroup {a : Node} (h : IsExpression a) : IsExpression (regroup a) := by
  induction h with
  | number numeral =>
      obtain ⟨word, -, ⟨hListed, hName⟩ | ⟨-, hSame⟩⟩ := regroup_number_cases numeral
      · rw [hName]
        exact .identifier (isName_of_mem hListed)
      · rw [hSame]
        exact .number numeral
  | string literal => exact .string literal
  | bool b => exact .bool b
  | identifier named => exact .identifier named
  | assignment named assigns _ ih => exact .assignment named assigns ih
  | binary operates _ _ ihLeft ihRight => exact .binary operates ihLeft ihRight
  | negation _ ih => exact .negation ih
  | await _ ih => exact .await ih
  | call _ _ ihFunction ihArguments =>
      refine isExpression_attach (fun m hm => .call hm ?_) ihFunction
      rw [regroupAll_eq_map]
      exact List.forall_mem_map.mpr ihArguments
  | member _ named ih => exact isExpression_attach (fun m hm => .member hm named) ih

/-- A node of two parts shows its form if it does so itself and both parts
do. -/
theorem showsForm_pair {n first second : Node} (hSelf : n.showsForm = true)
    (hChildren : n.children = [first, second]) (hFirst : first.ShowsForm)
    (hSecond : second.ShowsForm) : n.ShowsForm := by
  refine showsForm_iff.mpr ⟨hSelf, ?_⟩
  rw [hChildren]
  exact List.forall_mem_cons.mpr ⟨hFirst, List.forall_mem_singleton.mpr hSecond⟩

theorem showsForm_leaf {n : Node} (hSelf : n.showsForm = true) (hChildren : n.children = []) :
    n.ShowsForm := by
  refine showsForm_iff.mpr ⟨hSelf, ?_⟩
  rw [hChildren]
  exact List.forall_mem_nil _

/-- Every regrouped expression shows its form. A number that is written as a
word has become a name, and what was attached to waiting has moved inside. -/
theorem showsForm_regroup {a : Node} (h : IsExpression a) : (regroup a).ShowsForm := by
  induction h with
  | number numeral =>
      obtain ⟨word, hWord, ⟨-, hName⟩ | ⟨hNot, hSame⟩⟩ := regroup_number_cases numeral
      · rw [hName]
        exact showsForm_leaf rfl rfl
      · rw [hSame]
        refine showsForm_leaf ?_ rfl
        rw [showsForm_number hWord, Bool.not_eq_true', ← Bool.not_eq_true, List.contains_iff_mem]
        exact hNot
  | string _ | bool _ | identifier _ => exact showsForm_leaf rfl rfl
  | assignment _ _ _ ih => exact showsForm_pair rfl rfl (showsForm_leaf rfl rfl) ih
  | binary _ _ _ ihLeft ihRight => exact showsForm_pair rfl rfl ihLeft ihRight
  | negation _ ih | await _ ih =>
      exact showsForm_iff.mpr ⟨rfl, List.forall_mem_singleton.mpr ih⟩
  | @call function arguments _ _ ihFunction ihArguments =>
      refine showsForm_attach (fun m hWaits hm => showsForm_iff.mpr ⟨?_, ?_⟩) ihFunction
      · rw [showsForm, hWaits]
        rfl
      · refine List.forall_mem_cons.mpr ⟨hm, ?_⟩
        rw [regroupAll_eq_map]
        exact List.forall_mem_map.mpr ihArguments
  | member _ _ ih =>
      refine showsForm_attach (fun m hWaits hm =>
        showsForm_iff.mpr ⟨?_, List.forall_mem_singleton.mpr hm⟩) ih
      rw [showsForm, hWaits]
      rfl

/-- An expression that shows its form is not regrouped. The two things that
regrouping changes do not occur in it. -/
theorem regroup_eq_self {a : Node} (h : IsExpression a) (hShows : a.ShowsForm) : regroup a = a := by
  induction h with
  | number numeral =>
      obtain ⟨word, hWord, ⟨hListed, -⟩ | ⟨-, hSame⟩⟩ := regroup_number_cases numeral
      · have hShown := hShows _ .here
        rw [showsForm_number hWord, List.contains_iff_mem.mpr hListed] at hShown
        cases hShown
      · exact hSame
  | string _ | bool _ | identifier _ => rfl
  | assignment _ _ _ ih => rw [regroup, regroup_identifier, ih (hShows.child (.tail _ (.head _)))]
  | binary _ _ _ ihLeft ihRight =>
      rw [regroup, ihLeft (hShows.child (.head _)), ihRight (hShows.child (.tail _ (.head _)))]
  | negation _ ih | await _ ih => rw [regroup, ih (hShows.child (.head _))]
  | @call function arguments _ _ ihFunction ihArguments =>
      have hArguments : regroupAll arguments = arguments := by
        rw [regroupAll_eq_map]
        exact (List.map_congr_left fun x hx => ihArguments x hx (hShows.child (.tail _ hx))).trans
          (List.map_id arguments)
      rw [regroup, ihFunction (hShows.child (.head _)), hArguments,
        attach_of_isAwait (Bool.eq_false_of_not_eq_true' (hShows _ .here))]
  | member _ _ ih =>
      rw [regroup, ih (hShows.child (.head _)),
        attach_of_isAwait (Bool.eq_false_of_not_eq_true' (hShows _ .here))]

end Node

namespace Emit

open Node

/-! ### Regrouping keeps the text -/

/-- The text of arguments in their parentheses. -/
def argumentText (arguments : List Node) : Except Fault String := do
  let texts ← expressions arguments
  return "(" ++ ", ".intercalate texts ++ ")"

/-- A call is written as the function and then its arguments in parentheses. -/
theorem expression_call (function : Node) (arguments : List Node) :
    expression (.call function arguments) = do
      let text ← expression function
      let tail ← argumentText arguments
      return text ++ tail := by
  rw [expression, argumentText]
  cases expression function with
  | error _ => rfl
  | ok text =>
      cases expressions arguments with
      | error _ => rfl
      | ok texts => simp [bind, Except.bind, pure, Except.pure, String.append_assoc]

theorem expression_member (object : Node) (name : String) :
    expression (.member object name) = do
      let text ← expression object
      let tail ← Except.ok ("." ++ name)
      return text ++ tail := by
  rw [expression]
  cases expression object with
  | error _ => rfl
  | ok text => simp [bind, Except.bind, pure, Except.pure, String.append_assoc]

/-- Waiting is written in front, so that it makes no difference where the end
is attached. -/
theorem expression_attach {more : Node → Node} {tail : Except Fault String}
    (hMore : ∀ m, expression (more m) = do
      let text ← expression m
      let last ← tail
      return text ++ last) (n : Node) :
    expression (attach more n) = do
      let text ← expression n
      let last ← tail
      return text ++ last := by
  fun_induction attach more n with
  | case1 operand ih =>
      rw [expression, ih, expression]
      cases expression operand with
      | error _ => rfl
      | ok text =>
          cases tail with
          | error _ => rfl
          | ok last => simp [bind, Except.bind, pure, Except.pure, String.append_assoc]
  | case2 n _ => exact hMore n

/-- Regrouping does not change the texts of arguments if it does not change
that of each. -/
theorem expressions_regroupAll {ns : List Node}
    (h : ∀ n ∈ ns, expression (regroup n) = expression n) :
    expressions (regroupAll ns) = expressions ns := by
  induction ns with
  | nil => rfl
  | cons n rest ih =>
      rw [regroupAll, expressions, expressions, h n (.head _), ih fun m hm => h m (.tail _ hm)]

/-- Regrouping keeps the text. -/
theorem expression_regroup {a : Node} (h : IsExpression a) :
    expression (regroup a) = expression a := by
  induction h with
  | number numeral =>
      obtain ⟨word, hWord, ⟨-, hName⟩ | ⟨-, hSame⟩⟩ := regroup_number_cases numeral
      · rw [hName, expression, expression, hWord]
        rfl
      · rw [hSame]
  | string _ | bool _ | identifier _ => rfl
  | assignment _ _ _ ih => rw [regroup, regroup_identifier, expression, ih, ← expression]
  | binary _ _ _ ihLeft ihRight => rw [regroup, expression, expression, ihLeft, ihRight]
  | negation _ ih | await _ ih => rw [regroup, expression, expression, ih]
  | call _ _ ihFunction ihArguments =>
      rw [regroup, expression_attach fun m => expression_call m _, ihFunction, expression_call,
        argumentText, argumentText, expressions_regroupAll ihArguments]
  | member _ _ ih =>
      rw [regroup, expression_attach fun m => expression_member m _, ih, expression_member]

/-- Expressions have the same text exactly if they are regrouped to the same
one. -/
theorem expression_eq_iff {a b : Node} (ha : IsExpression a) (hb : IsExpression b) :
    expression a = expression b ↔ regroup a = regroup b := by
  constructor
  · intro hText
    rw [← expression_regroup ha, ← expression_regroup hb] at hText
    exact eq_of_expression_eq (isExpression_regroup ha) (isExpression_regroup hb)
      (showsForm_regroup ha)
      (showsForm_regroup hb) hText
  · intro hSame
    rw [← expression_regroup ha, hSame, expression_regroup hb]

/-- Of the parts of a program, only expressions have a text. -/
theorem isExpression_of_isPart {n : Node} (h : IsPart n) {text : String}
    (hText : expression n = .ok text) :
    IsExpression n := by
  cases h with
  | expression formed => exact formed
  | missing | block _ | program _ => cases hText
  | operation formed => cases formed <;> cases hText
  | statement formed => cases formed <;> cases hText

end Emit

namespace Parse

open Emit Node

/-- Two expressions of parsed programs have the same text exactly if they are
regrouped to the same one. So the texts of different expressions differ
wherever nothing is called on or taken from waiting and no number is written as
a word. -/
theorem emitted_eq_iff (first second : String) (ms ns : List Node)
    (hFirst : (parse .refuse first).tree = .ok (.program ms))
    (hSecond : (parse .refuse second).tree = .ok (.program ns)) (a b : Node)
    (ha : a.Occurs (.program ms)) (hb : b.Occurs (.program ns)) (s t : String)
    (hs : expression a = .ok s) (ht : expression b = .ok t) :
    (s = t ↔ regroup a = regroup b) ∧
      (a.ShowsForm → b.ShowsForm → a ≠ b → s ≠ t) := by
  have hA : IsExpression a := isExpression_of_isPart (isPart_of_occurs hFirst ha) hs
  have hB : IsExpression b := isExpression_of_isPart (isPart_of_occurs hSecond hb) ht
  have hTexts : s = t ↔ regroup a = regroup b := by
    rw [← expression_eq_iff hA hB, hs, ht]
    exact ⟨congrArg Except.ok, Except.ok.inj⟩
  refine ⟨hTexts, fun hShows hOther hDiffer hSame => hDiffer ?_⟩
  rw [← regroup_eq_self hA hShows, hTexts.mp hSame, regroup_eq_self hB hOther]

/-- A call of what is waited for, and waiting for a call. -/
def waitingScript : String := "(await f)(x)\\\\ await f(x)\\\\"

def callOfWaiting : Node := .call (.await (.identifier "f")) [.identifier "x"]

def plainCall : Node := .call (.identifier "f") [.identifier "x"]

def waitingStatements : List Node :=
  [.expressionStatement callOfWaiting, .expressionStatement (.await plainCall)]

/-- The tokens of two statements that differ in a pair of parentheses, and end
with the same call. -/
theorem laid_waitingScript : Lexer.Laid
    [(.openParen, .text "("), (.await, .text "await"), (.identifier, .text "f"),
      (.closeParen, .text ")"), (.openParen, .text "("), (.identifier, .text "x"),
      (.closeParen, .text ")"), (.terminator, .text "\\\\"), (.await, .text "await"),
      (.identifier, .text "f"), (.openParen, .text "("), (.identifier, .text "x"),
      (.closeParen, .text ")"), (.terminator, .text "\\\\")] waitingScript.toList := by
  have hF : Lexer.IsName "f" := isName_letter (by decide) (by decide)
  have hX : Lexer.IsName "x" := isName_letter (by decide) (by decide)
  have hCall {following : List (Terminal × Value)} {rest : List Char}
      (hRest : Lexer.Laid following rest)
      (hStops : PageScript.Stops Lexer.extendsMark rest) :
      Lexer.Laid ((.openParen, .text "(") :: (.identifier, .text "x") :: (.closeParen, .text ")") ::
        (.terminator, .text "\\\\") :: following) ("(x)\\\\".toList ++ rest) :=
    .mark (by decide) (stops_cons (by decide) _)
      (.cons (.name hX) (Lexer.detached_cons (by decide) _ _)
      (.mark (by decide) (stops_cons (by decide) _) (.mark (by decide) hStops hRest)))
  have hSecond :=
    Lexer.Laid.spaced (.reserved (by decide : ("await", Terminal.await) ∈ Terminal.reserved)
      (by decide))
    (.cons (.name hF) (Lexer.detached_cons (by decide) _ _) (hCall .nil stops_nil))
  have hBlank := Lexer.Laid.blank (by decide : Lexer.isBlank ' ' = true) hSecond
  have hFirst :=
    Lexer.Laid.spaced (.reserved (by decide : ("await", Terminal.await) ∈ Terminal.reserved)
      (by decide))
    (.cons (.name hF) (Lexer.detached_cons (by decide) _ _)
      (.mark (by decide : (")", Terminal.closeParen) ∈ Terminal.marks) (stops_cons (by decide) _)
        (hCall hBlank (stops_cons (by decide) _))))
  exact .mark (by decide : ("(", Terminal.openParen) ∈ Terminal.marks)
    (stops_cons (by decide) _) hFirst

/-- The two statements are parsed to different trees. -/
theorem tree_waitingScript : (parse .refuse waitingScript).tree =
    .ok (.program waitingStatements) := by
  have hF : Means .refuse (.n .postfixed) [(.identifier, .text "f")] (.node (.identifier "f")) :=
    means_primary .identifier ⟨rfl, rfl⟩ rfl rfl
  have hX : Means .refuse (.n .postfixed) [(.identifier, .text "x")] (.node (.identifier "x")) :=
    means_primary .identifier ⟨rfl, rfl⟩ rfl rfl
  have hArguments : Means .refuse (.n .arguments) [(.identifier, .text "x")]
      (.nodes [.identifier "x"]) :=
    means_arguments (.cons (means_expression hX) .nil)
  have hFirst := means_expression (means_call (means_parenthesised (means_await hF)) hArguments)
  have hSecond := means_await (means_call hF hArguments)
  have hStatements := means_statements
    (.cons (means_expressionStatement hFirst) (.cons (means_expressionStatement hSecond) .nil))
  exact tree_of_means laid_waitingScript hStatements

theorem showsForm_plainCall : plainCall.ShowsForm := by
  refine showsForm_iff.mpr ⟨rfl, List.forall_mem_cons.mpr ⟨showsForm_leaf rfl rfl, ?_⟩⟩
  exact List.forall_mem_singleton.mpr (showsForm_leaf rfl rfl)

/-- The two statements are regrouped to one expression. Waiting for a call
shows its form, and so does the call alone. -/
theorem emitted_eq_iff_waitingScript :
    (parse .refuse waitingScript).tree = .ok (.program waitingStatements) ∧
      callOfWaiting.Occurs (.program waitingStatements) ∧
        (Node.await plainCall).Occurs (.program waitingStatements) ∧
      plainCall.Occurs (.program waitingStatements) ∧
      regroup callOfWaiting = regroup (.await plainCall) ∧
      plainCall.ShowsForm ∧ (Node.await plainCall).ShowsForm ∧ "f(x)" ≠ "await f(x)" := by
  have hWaiting : callOfWaiting.Occurs (.program waitingStatements) :=
    .inside (.head _) (.inside (.head _) .here)
  have hAwait : (Node.await plainCall).Occurs (.program waitingStatements) :=
    .inside (.tail _ (.head _)) (.inside (.head _) .here)
  have hPlain : plainCall.Occurs (.program waitingStatements) :=
    .inside (.tail _ (.head _)) (.inside (.head _) (.inside (.head _) .here))
  have hShows : (Node.await plainCall).ShowsForm :=
    showsForm_iff.mpr ⟨rfl, List.forall_mem_singleton.mpr showsForm_plainCall⟩
  have hSame := emitted_eq_iff waitingScript waitingScript _ _ tree_waitingScript tree_waitingScript
    _ _ hWaiting hAwait
    "await f(x)" "await f(x)" rfl rfl
  have hDiffer := emitted_eq_iff waitingScript waitingScript _ _ tree_waitingScript
    tree_waitingScript _ _ hPlain hAwait
    "f(x)" "await f(x)" rfl rfl
  refine ⟨tree_waitingScript, hWaiting, hAwait, hPlain, hSame.1.mp rfl,
    showsForm_plainCall, hShows, hDiffer.2 showsForm_plainCall hShows ?_⟩
  intro hEqual
  cases hEqual

/-- The two statements are different expressions with one text. -/
theorem emitted_waitingScript :
    (parse .refuse waitingScript).tree = .ok (.program waitingStatements) ∧
      waitingStatements = [.expressionStatement callOfWaiting,
        .expressionStatement (.await plainCall)] ∧
      callOfWaiting ≠ .await plainCall ∧ expression callOfWaiting = .ok "await f(x)" ∧
      expression (.await plainCall) = .ok "await f(x)" := by
  refine ⟨tree_waitingScript, rfl, ?_, rfl, rfl⟩
  intro hSame
  cases hSame

end Parse

end PageScript
