import PageScript.Emit
import PageScript.Proofs.Grammar.Means
import PageScript.Proofs.Parse.Acceptance

/-! Emitted expressions are read back. Operations stand in parentheses and a
blank stands on both sides of every operator, so that tokens are cut where they
were put together and each operand stands for itself. Main statement: the text
of an expression, ended as a statement, is parsed to the program that is this
expression. -/
namespace PageScript

namespace Lexer

/-! ### Texts that can be put together -/

/-- Wherever it is put, the text does not make a longer mark of the one before
it, and it is laid out as these tokens unless what follows belongs to its last
token. -/
structure Readable (text : String) (contents : List (Terminal × Value)) : Prop where
  apart : ∀ rest, Stops extendsMark (text.toList ++ rest)
  laid : ∀ following rest, Laid following rest → Detached rest →
      Laid (contents ++ following) (text.toList ++ rest)

theorem stops_append {text rest : List Char} {first : Char} (h : text.head? = some first)
    (hFirst : extendsMark first = false) : Stops extendsMark (text ++ rest) := by
  obtain ⟨more, rfl⟩ := List.head?_eq_some_iff.mp h
  exact stops_cons hFirst _

/-- A token of its own. -/
theorem Spelled.readable {token : Terminal × Value} {text : String} (h : Spelled token text.toList)
    {first : Char} (hHead : text.toList.head? = some first) (hFirst : extendsMark first = false) :
    Readable text [token] where
  apart _ := stops_append hHead hFirst
  laid _ _ hRest hDetached := .cons h (hDetached token.1) hRest

theorem extendsMark_eq_false_of_class {p : Char → Bool} {c : Char} (hc : p c = true)
    (h : p '=' = false ∧ p '/' = false) : extendsMark c = false := by
  rw [extendsMark, beq_eq_false_of_class hc h.1, beq_eq_false_of_class hc h.2]
  rfl

theorem IsName.readable {word : String} (h : IsName word) :
    Readable word [(.identifier, .text word)] := by
  obtain ⟨first, more, hWord, hFirst, -⟩ := h.spelled
  have hHead : word.toList.head? = some first := by rw [hWord]; rfl
  exact (Spelled.name h).readable hHead (extendsMark_eq_false_of_class hFirst (by decide))

theorem readable_truth (b : Bool) : Readable (truthWord b) [(.boolean, .bool b)] := by
  cases b with
  | true => exact (Spelled.truth true).readable rfl (by decide : extendsMark 't' = false)
  | false => exact (Spelled.truth false).readable rfl (by decide : extendsMark 'f' = false)

theorem readable_literal {body : String} (h : Run.IsLiteralBody body.toList) :
    Readable ("\"" ++ body ++ "\"") [(.text, .text body)] := by
  have hText : ("\"" ++ body ++ "\"").toList = '"' :: (body.toList ++ ['"']) := by simp
  have hSpelled : Spelled (.text, .text body) ("\"" ++ body ++ "\"").toList := hText ▸ .literal h
  exact hSpelled.readable (by rw [hText]; rfl) (by decide : extendsMark '"' = false)

/-- A number of not too many digits is read back from its own digits. -/
theorem readable_integer {n : Nat} (h : (toString n).length ≤ digitLimit) :
    Readable (toString n) [(.integer, .int n)] := by
  obtain ⟨first, more, hDigits⟩ := exists_toString_eq_cons n
  have hFirst : first.isDigit = true :=
    Digit.isDigit_of_mem_toString first (by rw [hDigits]; exact .head _)
  have hHead : (toString n).toList.head? = some first := by rw [hDigits]; rfl
  exact (spelled_toString h).readable hHead (extendsMark_eq_false_of_class hFirst (by decide))

/-- A mark in front. -/
theorem Readable.mark {text spelling : String} {contents : List (Terminal × Value)}
    {kind : Terminal} (h : Readable text contents) (listed : (spelling, kind) ∈ Terminal.marks)
    {first : Char} (hHead : spelling.toList.head? = some first)
    (hFirst : extendsMark first = false) :
    Readable (spelling ++ text) ((kind, .text spelling) :: contents) where
  apart rest := by
    rw [String.toList_append, List.append_assoc]
    exact stops_append hHead hFirst
  laid following rest hRest hDetached := by
    rw [String.toList_append, List.append_assoc]
    exact .mark listed (h.apart rest) (h.laid following rest hRest hDetached)

/-- In parentheses a readable text is read back with a token before it and one
behind it. -/
theorem readable_enclosed {inner : String} {contents : List (Terminal × Value)}
    (h : Readable inner contents) :
    Readable ("(" ++ inner ++ ")")
      ((.openParen, .text "(") :: (contents ++ [(.closeParen, .text ")")])) where
  apart rest := by
    rw [String.append_assoc, String.toList_append, List.append_assoc]
    exact stops_append rfl (by decide : extendsMark '(' = false)
  laid following rest hRest hDetached := by
    have hClose : Laid ((.closeParen, .text ")") :: following) (")".toList ++ rest) :=
      .mark (by decide) (hDetached .closeParen) hRest
    have hInner := h.laid _ _ hClose (detached_cons (by decide) rest)
    rw [String.append_assoc, String.toList_append, String.toList_append, List.append_assoc,
      List.append_assoc, List.cons_append, List.append_assoc]
    exact .mark (by decide) (h.apart _) hInner

/-- An operator stands between blanks. -/
theorem Readable.operation {left right operator : String} {as bs : List (Terminal × Value)}
    {kind : Terminal} (hLeft : Readable left as) (hRight : Readable right bs)
    (listed : (operator, kind) ∈ Terminal.marks) :
    Readable (left ++ " " ++ operator ++ " " ++ right) (as ++ (kind, .text operator) :: bs) where
  apart rest := by
    rw [String.append_assoc, String.append_assoc, String.append_assoc, String.toList_append,
      List.append_assoc]
    exact hLeft.apart _
  laid following rest hRest hDetached := by
    have hBlank : isBlank ' ' = true := by decide
    have hSecond : Laid (bs ++ following) (' ' :: (right.toList ++ rest)) :=
      .blank hBlank (hRight.laid _ _ hRest hDetached)
    have hOperator : Laid ((kind, .text operator) :: (bs ++ following))
        (' ' :: (operator.toList ++ ' ' :: (right.toList ++ rest))) :=
      .blank hBlank (.mark listed (stops_cons (by decide) _) hSecond)
    have hAll := hLeft.laid _ _ hOperator (detached_cons (by decide) _)
    have hText : (left ++ " " ++ operator ++ " " ++ right).toList ++ rest =
        left.toList ++ ' ' :: (operator.toList ++ ' ' :: (right.toList ++ rest)) := by simp
    rw [hText, List.append_assoc]
    exact hAll

/-- A member behind a readable text is read back as a point and a name: the
point belongs to no token before it. -/
theorem Readable.member {object name : String} {contents : List (Terminal × Value)}
    (h : Readable object contents) (hName : IsName name) :
    Readable (object ++ "." ++ name) (contents ++ [(.dot, .text "."), (.identifier, .text name)])
      where
  apart rest := by
    rw [String.append_assoc, String.toList_append, List.append_assoc]
    exact h.apart _
  laid following rest hRest hDetached := by
    have hMember : Laid ((.dot, .text ".") :: (.identifier, .text name) :: following)
        ('.' :: (name.toList ++ rest)) :=
      .mark (by decide) (hName.readable.apart rest) (hName.readable.laid _ _ hRest hDetached)
    have hText : (object ++ "." ++ name).toList ++ rest = object.toList ++ '.' ::
        (name.toList ++ rest) := by simp
    rw [hText, List.append_assoc]
    exact h.laid _ _ hMember (detached_member hName rest)

/-! ### Arguments -/

section arguments

variable {texts : List String} {written : List (List (Terminal × Value))}

/-- Arguments begin with a character that prolongs no mark, and so does the
parenthesis behind them if there are none. -/
theorem stops_arguments (h : List.Forall₂ Readable texts written) (rest : List Char) :
    Stops extendsMark ((", ".intercalate texts).toList ++ ')' :: rest) := by
  cases h with
  | nil => exact stops_cons (by decide) rest
  | cons first others =>
      cases others with
      | nil =>
          rw [String.intercalate_singleton]
          exact first.apart _
      | cons second _ =>
          rw [String.intercalate_cons_cons, String.append_assoc, String.toList_append,
            List.append_assoc]
          exact first.apart _

/-- Readable texts joined by commas are the tokens of these texts with commas
between them. A comma ends the argument before it, and a blank keeps it from
the one behind it. -/
theorem laid_arguments (h : List.Forall₂ Readable texts written)
    {following : List (Terminal × Value)} {rest : List Char} (hRest : Laid following rest)
    (hDetached : Detached rest) :
    Laid (commaSeparated written ++ following) ((", ".intercalate texts).toList ++ rest) := by
  induction h with
  | nil => exact hRest
  | @cons text contents texts written first others ih =>
      cases others with
      | nil =>
          have hAlone : commaSeparated [contents] = contents := List.append_nil contents
          rw [String.intercalate_singleton, hAlone]
          exact first.laid _ _ hRest hDetached
      | @cons second otherContents texts written _ _ =>
          have hSeparated : commaSeparated (contents :: otherContents :: written) ++ following =
              contents ++ (.comma, .text ",") ::
                (commaSeparated (otherContents :: written) ++ following) := by
            simp [commaSeparated]
          have hText : (", ".intercalate (text :: second :: texts)).toList ++ rest =
              text.toList ++ ',' :: ' ' ::
                ((", ".intercalate (second :: texts)).toList ++ rest) := by
            simp
          have hComma : Laid ((.comma, .text ",") ::
              (commaSeparated (otherContents :: written) ++ following))
              (',' :: ' ' :: ((", ".intercalate (second :: texts)).toList ++ rest)) :=
            .mark (by decide) (stops_cons (by decide) _) (.blank (by decide) ih)
          rw [hSeparated, hText]
          exact first.laid _ _ hComma (detached_cons (by decide) _)

/-- A call is read back as the function, a parenthesis, the arguments with
commas between them, and a parenthesis. -/
theorem Readable.call {function : String} {contents : List (Terminal × Value)}
    (h : Readable function contents) (hArguments : List.Forall₂ Readable texts written) :
    Readable (function ++ "(" ++ ", ".intercalate texts ++ ")")
      (contents ++ (.openParen, .text "(") ::
        (commaSeparated written ++ [(.closeParen, .text ")")])) where
  apart rest := by
    rw [String.append_assoc, String.append_assoc, String.toList_append, List.append_assoc]
    exact h.apart _
  laid following rest hRest hDetached := by
    have hClose : Laid ((.closeParen, .text ")") :: following) (')' :: rest) :=
      .mark (by decide) (hDetached .closeParen) hRest
    have hGiven := laid_arguments hArguments hClose (detached_cons (by decide) rest)
    have hOpen : Laid ((.openParen, .text "(") ::
        (commaSeparated written ++ (.closeParen, .text ")") :: following))
        ('(' :: ((", ".intercalate texts).toList ++ ')' :: rest)) :=
      .mark (by decide) (stops_arguments hArguments rest) hGiven
    have hText : (function ++ "(" ++ ", ".intercalate texts ++ ")").toList ++ rest =
        function.toList ++ '(' :: ((", ".intercalate texts).toList ++ ')' :: rest) := by simp
    rw [hText, List.append_assoc, List.cons_append, List.append_assoc]
    exact h.laid _ _ hOpen (detached_cons (by decide) _)

end arguments

end Lexer

namespace Emit

open Lexer (IsName Readable truthWord)

/-! ### Expressions that are read back -/

/-- An expression of whole numbers, legal literals, truth values and names.
Decimals are left out, and so is waiting, which no parentheses enclose. -/
inductive IsReadable : Node → Prop where
  | integer {n : Int} (short : (toString n.natAbs).length ≤ digitLimit) :
      IsReadable (.number (.int n))
  | string {s : String} (legal : Run.IsLiteralBody s.toList) : IsReadable (.string s)
  | bool (b : Bool) : IsReadable (.bool b)
  | identifier {name : String} (named : IsName name) : IsReadable (.identifier name)
  | negation {operand : Node} (inner : IsReadable operand) : IsReadable (.unary "!" operand)
  | binary {left right : Node} {operator : String} (operates : operator ∈ binaryOperators)
      (first : IsReadable left) (second : IsReadable right) :
      IsReadable (.binary left operator right)
  | assignment {name operator : String} {value : Node} (named : IsName name)
      (assigns : operator = "=" ∨ operator = "+=") (right : IsReadable value) :
      IsReadable (.binary (.identifier name) operator value)
  | call {function : Node} {arguments : List Node} (called : IsReadable function)
      (given : ∀ a ∈ arguments, IsReadable a) : IsReadable (.call function arguments)
  | member {object : Node} {name : String} (inner : IsReadable object) (named : IsName name) :
      IsReadable (.member object name)

/-- The text of an expression, the tokens that it is laid out as, and their
meaning. -/
structure ReadsBack (policy : ElementPolicy) (e : Node) (text : String)
    (contents : List (Terminal × Value)) : Prop where
  emitted : expression e = .ok text
  readable : Readable text contents
  means : Means policy (.n .postfixed) contents (.node e)

section reading

variable {policy : ElementPolicy}

/-- An integer is written as its digits, behind a minus sign if it is
negative. -/
theorem expression_integer {n : Int} (short : (toString n.natAbs).length ≤ digitLimit) :
    expression (.number (.int n)) =
      .ok (if n < 0 then "-" ++ toString n.natAbs else toString n.natAbs) := by
  have hWrite : Value.write (.int n) =
      .ok (if n < 0 then "-" ++ toString n.natAbs else toString n.natAbs) :=
    if_neg (Nat.not_lt.mpr short)
  rw [expression, hWrite]
  rfl

/-- Integers of not too many digits are read back, negative ones as a minus
sign and a number. -/
theorem readsBack_integer {n : Int} (short : (toString n.natAbs).length ≤ digitLimit) :
    ∃ text contents, ReadsBack policy (.number (.int n)) text contents := by
  have hEmitted := expression_integer short
  have hDigits := Lexer.readable_integer short
  by_cases hSign : n < 0
  · have hValue : -(n.natAbs : Int) = n := by omega
    have hMeans := means_negative policy n.natAbs
    rw [hValue] at hMeans
    rw [if_pos hSign] at hEmitted
    exact ⟨_, _, hEmitted, hDigits.mark (by decide) rfl
      (by decide : Lexer.extendsMark '-' = false), hMeans⟩
  · have hValue : (n.natAbs : Int) = n := by omega
    rw [hValue] at hDigits
    rw [if_neg hSign] at hEmitted
    exact ⟨_, _, hEmitted, hDigits, means_primary .integer ⟨rfl, rfl⟩ rfl rfl⟩

/-- What stands in parentheses. -/
theorem readsBack_enclosed {e : Node} {inner : String} {contents : List (Terminal × Value)}
    (hEmitted : expression e = .ok ("(" ++ inner ++ ")")) (hInner : Readable inner contents)
    (hMeans : Means policy (.n .expression) contents (.node e)) :
    ∃ text contents, ReadsBack policy e text contents :=
  ⟨_, _, hEmitted, Lexer.readable_enclosed hInner, means_parenthesised hMeans⟩

/-- Arguments that are read back one by one are read back as a list. -/
theorem readsBack_arguments {arguments : List Node}
    (h : ∀ a ∈ arguments, ∃ text contents, ReadsBack policy a text contents) :
    ∃ texts written, expressions arguments = .ok texts ∧
      List.Forall₂ Readable texts written ∧
      List.Forall₂ (fun contents a => Means policy (.n .expression) contents (.node a)) written
        arguments := by
  induction arguments with
  | nil => exact ⟨[], [], rfl, .nil, .nil⟩
  | cons a rest ih =>
      obtain ⟨text, contents, hFirst⟩ := h a (.head _)
      obtain ⟨texts, written, hEmitted, hReadable, hMeans⟩ := ih fun b hb => h b (.tail _ hb)
      refine ⟨text :: texts, contents :: written, ?_, .cons hFirst.readable hReadable,
        .cons (means_expression hFirst.means) hMeans⟩
      rw [expressions, hFirst.emitted, hEmitted]
      rfl

/-- Every such expression is emitted as a text that is laid out and means
itself. The induction is on the expression; operations and negations are
enclosed in parentheses, so nothing is said of precedence. -/
theorem IsReadable.readsBack {e : Node} (h : IsReadable e) :
    ∃ text contents, ReadsBack policy e text contents := by
  induction h with
  | integer short => exact readsBack_integer short
  | @string s legal =>
      exact ⟨_, _, rfl, Lexer.readable_literal legal,
        means_primary .text ⟨rfl, rfl⟩ rfl rfl⟩
  | bool b =>
      exact ⟨_, _, rfl, Lexer.readable_truth b, means_primary .boolean ⟨rfl, rfl⟩ rfl rfl⟩
  | identifier named =>
      exact ⟨_, _, rfl, named.readable, means_primary .identifier ⟨rfl, rfl⟩ rfl rfl⟩
  | negation _ ih =>
      obtain ⟨text, contents, hOperand⟩ := ih
      have hInner : Readable ("!" ++ text) ((.not, .text "!") :: contents) :=
        hOperand.readable.mark (by decide) rfl (by decide : Lexer.extendsMark '!' = false)
      refine readsBack_enclosed ?_ hInner (means_negation hOperand.means)
      rw [expression, hOperand.emitted, String.append_assoc]
      rfl
  | binary operates _ _ ihLeft ihRight =>
      obtain ⟨l, as, hLeft⟩ := ihLeft
      obtain ⟨r, bs, hRight⟩ := ihRight
      obtain ⟨reading, hReading, rfl⟩ := exists_reading operates
      have hListed := (readings_join reading hReading).2.2.2
      refine readsBack_enclosed ?_ (hLeft.readable.operation hRight.readable hListed)
        (means_operation hReading hLeft.means hRight.means)
      rw [expression, hLeft.emitted, hRight.emitted]
      simp [String.append_assoc]
  | @assignment name operator value named assigns _ ih =>
      obtain ⟨r, bs, hRight⟩ := ih
      obtain ⟨kind, hListed, hMark⟩ := exists_assignment assigns
      refine readsBack_enclosed ?_ (named.readable.operation hRight.readable hMark)
        (means_assignment hListed name hRight.means)
      rw [expression, expression, hRight.emitted]
      simp [String.append_assoc]
  | call _ _ ihFunction ihArguments =>
      obtain ⟨f, contents, hFunction⟩ := ihFunction
      obtain ⟨texts, written, hEmitted, hReadable, hMeans⟩ := readsBack_arguments ihArguments
      refine ⟨_, _, ?_, hFunction.readable.call hReadable,
        means_call hFunction.means (means_arguments hMeans)⟩
      rw [expression, hFunction.emitted, hEmitted]
      rfl
  | member _ named ih =>
      obtain ⟨o, contents, hObject⟩ := ih
      refine ⟨_, _, ?_, hObject.readable.member named, means_member hObject.means _⟩
      rw [expression, hObject.emitted]
      rfl

end reading

/-- The text of an expression, ended as a statement, is parsed to the program
that is this expression. What ends the statement does not prolong the last
token of the expression. -/
theorem parse_expression (policy : ElementPolicy) (e : Node) (h : IsReadable e) :
    ∃ text, expression e = .ok text ∧
      (Parse.parse policy (text ++ "\\\\")).tree = .ok (.program [.expressionStatement e]) := by
  obtain ⟨text, contents, hText⟩ : ∃ text contents, ReadsBack policy e text contents :=
    h.readsBack
  refine ⟨text, hText.emitted, ?_⟩
  have hEnd : Lexer.Laid [(.terminator, .text "\\\\")] ['\\', '\\'] :=
    .mark (by decide) stops_nil .nil
  have hLaid : Lexer.Laid (contents ++ [(.terminator, .text "\\\\")]) (text ++ "\\\\").toList := by
    rw [String.toList_append]
    exact hText.readable.laid _ _ hEnd (Lexer.detached_cons (by decide) _)
  obtain ⟨hTokens, hFault⟩ := Lexer.collect_of_laid hLaid Cursor.start
  obtain ⟨d, hDerives, hFree, hValue⟩ := means_program (means_expression hText.means) _ hTokens
  have hOutcome : (Parse.parse policy (text ++ "\\\\")).outcome =
      .accepted (.node (.program [.expressionStatement e])) :=
    Parse.accepted_of_derives (fun t ht => Lexer.scanned_of_mem_scan ht) hFault hDerives
      hFree hValue
  rw [Parse.Parsed.tree, hOutcome]

theorem isName_letter {c : Char} (h : Lexer.isWordStart c = true)
    (hUnreserved : Terminal.reserved.lookup (String.ofList [c]) = none) :
    IsName (String.ofList [c]) :=
  ⟨⟨c, [], String.toList_ofList, h, List.forall_mem_nil _⟩, hUnreserved⟩

/-- A call of a member of a negative number, whose arguments are a negated
literal with a guarded quote and a difference of a name and a negative number,
assigned to a name. -/
def nestedExpression : Node :=
  .binary (.identifier "x") "+=" (.call (.member (.number (.int (-5))) "y")
    [.unary "!" (.string "a\\\"b"), .binary (.identifier "z") "-" (.number (.int (-7)))])

theorem isReadable_nestedExpression : IsReadable nestedExpression := by
  have hX : IsName "x" := isName_letter (by decide) (by decide)
  have hY : IsName "y" := isName_letter (by decide) (by decide)
  have hZ : IsName "z" := isName_letter (by decide) (by decide)
  have hLegal : Run.IsLiteralBody "a\\\"b".toList :=
    .plain (by decide) (by decide) (by decide)
      (.escaped (by decide) (.plain (by decide) (by decide) (by decide) .nil))
  have hArguments : ∀ a ∈ [Node.unary "!" (.string "a\\\"b"),
      .binary (.identifier "z") "-" (.number (.int (-7)))],
      IsReadable a :=
    List.forall_mem_cons.mpr ⟨.negation (.string hLegal),
      List.forall_mem_singleton.mpr (.binary (by decide) (.identifier hZ) (.integer (by decide)))⟩
  exact .assignment hX (.inr rfl) (.call (.member (.integer (by decide)) hY) hArguments)

/-- An assignment to a name of a call on a member of a negative number, with a
negation and a difference for its arguments. -/
theorem parse_expression_nested :
    expression nestedExpression = .ok "(x += -5.y((!\"a\\\"b\"), (z - -7)))" ∧
      (Parse.parse .refuse ("(x += -5.y((!\"a\\\"b\"), (z - -7)))" ++ "\\\\")).tree =
        .ok (.program [.expressionStatement nestedExpression]) := by
  have hEmitted : expression nestedExpression = .ok "(x += -5.y((!\"a\\\"b\"), (z - -7)))" := by rfl
  obtain ⟨text, hText, hTree⟩ :=
    parse_expression .refuse nestedExpression isReadable_nestedExpression
  rw [hEmitted] at hText
  cases hText
  exact ⟨hEmitted, hTree⟩

end Emit

end PageScript
