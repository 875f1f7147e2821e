import PageScript.Proofs.Emit.ReadBack
import PageScript.Proofs.Number.Written
import PageScript.Proofs.Parse.WellFormed

/-! Texts of expressions are read in one way. Behind an expression stand the
end, a blank, a comma or a closing parenthesis, and whatever else follows
belongs to it. Main statement: expressions with one text are equal, if nothing
in them is called on or taken from waiting and no number is written as a
word. -/
namespace PageScript

namespace Numeral

/-! ### Runs -/

/-- A text that cannot prolong a run. -/
structure Breaks (rest : List Char) : Prop where
  part : Stops isRunPart rest
  point : ∀ more, rest = '.' :: more → Stops Char.isDigit more

/-- Where a run would have to stop there is no run. -/
theorem Breaks.eq_nil {text rest : List Char} (h : Breaks (text ++ rest)) (hRun : IsRun text) :
    text = [] := by
  cases hRun with
  | nil => rfl
  | part runs _ =>
      have hOutside := h.part _ rfl
      rw [runs] at hOutside
      cases hOutside
  | point digit _ =>
      have hWord := h.point _ rfl _ rfl
      rw [digit] at hWord
      cases hWord

/-- A run ends where the text breaks, so a text has one run in front only. The
induction is on the run, with both texts cut at the same character. -/
theorem IsRun.eq_of_append {front back front' back' : List Char} (h : IsRun front)
    (h' : IsRun front') (hBack : Breaks back) (hBack' : Breaks back')
    (hText : front ++ back = front' ++ back') :
    front = front' ∧ back = back' := by
  induction h generalizing front' with
  | nil =>
      rw [List.nil_append] at hText
      have hNil : front' = [] := (hText ▸ hBack).eq_nil h'
      subst hNil
      exact ⟨rfl, hText⟩
  | @part c rest runs more ih =>
      cases h' with
      | nil =>
          have hBreaks : Breaks (c :: rest ++ back) := hText ▸ hBack'
          cases hBreaks.eq_nil (.part runs more)
      | part _ more' =>
          obtain ⟨rfl, hRest⟩ := List.cons.inj hText
          obtain ⟨rfl, hSame⟩ := ih more' hRest
          exact ⟨rfl, hSame⟩
      | point _ _ =>
          obtain ⟨rfl, -⟩ := List.cons.inj hText
          exact absurd runs (by decide)
  | @point c rest digit more ih =>
      cases h' with
      | nil =>
          have hBreaks : Breaks ('.' :: c :: rest ++ back) := hText ▸ hBack'
          cases hBreaks.eq_nil (.point digit more)
      | part runs _ =>
          obtain ⟨rfl, -⟩ := List.cons.inj hText
          exact absurd runs (by decide)
      | point _ more' =>
          obtain ⟨-, hRest⟩ := List.cons.inj hText
          obtain ⟨hSame, hBoth⟩ := ih more' hRest
          exact ⟨congrArg ('.' :: ·) hSame, hBoth⟩

/-- A run stops before a character that is no part of runs, the point
excepted. -/
theorem breaks_cons {c : Char} (h : isRunPart c = false) (hPoint : c ≠ '.') (rest : List Char) :
    Breaks (c :: rest) where
  part := stops_cons h rest
  point _ hText := absurd (List.cons.inj hText).1 hPoint

end Numeral

namespace Lexer

open Numeral (IsRun Breaks)

theorem isWordPart_of_isWordStart {c : Char} (h : isWordStart c = true) : isWordPart c = true := by
  have hStart : isWordStart c = (c.isAlpha || c == '_') := rfl
  have hPart : isWordPart c = (c.isAlpha || c.isDigit || c == '_') := rfl
  rw [hStart, Bool.or_eq_true] at h
  rcases h with hAlpha | hLine
  · simp [hPart, hAlpha]
  · simp [hPart, hLine]

theorem IsName.isRun {word : String} (h : IsName word) : IsRun word.toList := by
  obtain ⟨first, more, hWord, hFirst, hMore⟩ := h.spelled
  rw [hWord]
  exact Numeral.isRun_of_isWordPart
    (List.forall_mem_cons.mpr ⟨isWordPart_of_isWordStart hFirst, hMore⟩)

/-- A point in front of a name prolongs no number. -/
theorem IsName.breaks {word : String} (h : IsName word) (rest : List Char) :
    Breaks ('.' :: (word.toList ++ rest)) where
  part := stops_cons (by decide) _
  point more hMore := by
    obtain ⟨first, others, hWord, hFirst, -⟩ := h.spelled
    obtain ⟨-, rfl⟩ := List.cons.inj hMore
    rw [hWord]
    refine stops_cons ?_ _
    rw [Bool.eq_false_iff]
    intro hDigit
    rw [Numeral.isWordStart_eq_false_of_isDigit hDigit] at hFirst
    cases hFirst

/-- A text that begins as a word does. -/
def startsWord (text : String) : Bool := text.toList.head?.any isWordStart

theorem IsName.startsWord {word : String} (h : IsName word) : startsWord word = true := by
  obtain ⟨first, more, hWord, hFirst, -⟩ := h.spelled
  rw [Lexer.startsWord, hWord]
  exact hFirst

theorem startsWord_truthWord (b : Bool) : startsWord (truthWord b) = true := by
  cases b <;> decide

/-- The words for truth values are reserved, so they are no names. -/
theorem not_isName_truthWord (b : Bool) : ¬IsName (truthWord b) := by
  intro h
  have hReserved : ∀ b, Terminal.reserved.lookup (truthWord b) ≠ none := by decide
  exact hReserved b h.unreserved

end Lexer

namespace IsNumeral

open Numeral (IsNumberText wordNumbers)

theorem exists_write {v : Value} (h : IsNumeral v) : ∃ text, v.write = .ok text := by
  cases h with
  | int short => exact writeInt_ok short
  | float x => exact ⟨_, rfl⟩

variable {v : Value} {text : String} (h : IsNumeral v) (hWritten : v.write = .ok text)

include h hWritten

/-- A number that is not written as a word has the text of a number. -/
theorem isNumberText (hApart : text ∉ wordNumbers) : IsNumberText text.toList := by
  cases h with
  | int _ => exact Numeral.isNumberText_writeInt hWritten
  | float x =>
      cases hWritten
      exact Numeral.isNumberText_writeDouble x hApart

/-- A number that is not written as a word does not begin like one. -/
theorem not_startsWord (hApart : text ∉ wordNumbers) : ¬Lexer.startsWord text = true := by
  obtain ⟨c, rest, hText, hStart⟩ := (h.isNumberText hWritten hApart).starts
  rw [Lexer.startsWord, hText, Bool.not_eq_true]
  exact hStart

/-- Numbers with one text are equal. -/
theorem eq_of_write {w : Value} (hw : IsNumeral w) (hSecond : w.write = .ok text) : v = w := by
  cases h with
  | int _ =>
      cases hw with
      | int _ => exact congrArg Value.int (Numeral.eq_of_writeInt hWritten hSecond)
      | float x =>
          cases hSecond
          exact absurd hWritten (Numeral.writeInt_ne_writeDouble _ x)
  | float x =>
      cases hw with
      | int _ =>
          cases hWritten
          exact absurd hSecond (Numeral.writeInt_ne_writeDouble _ x)
      | float y =>
          have hSame : writeDouble x = writeDouble y := Except.ok.inj (hWritten.trans hSecond.symm)
          exact congrArg Value.float (Numeral.writeDouble_injective hSame)

end IsNumeral

namespace Node

def isAwait : Node → Bool
  | await _ => true
  | _ => false

/-- Whether the form of a node shows in its text: what is called, or what a
member is taken from, does not wait, and a number is not written as a word. -/
def showsForm : Node → Bool
  | call function _ => !function.isAwait
  | member object _ => !object.isAwait
  | number value => match value.write with
    | .ok word => !Numeral.wordNumbers.contains word
    | .error _ => true
  | _ => true

/-- A number shows its form unless it is written as a word. -/
theorem showsForm_number {value : Value} {word : String} (h : value.write = .ok word) :
    (number value).showsForm = !Numeral.wordNumbers.contains word := by
  rw [showsForm, h]

/-- A node whose form shows at every depth. -/
def ShowsForm (n : Node) : Prop := ∀ part : Node, part.Occurs n → part.showsForm = true

/-- The parts of an expression that shows its form show theirs. -/
theorem ShowsForm.child {n child : Node} (h : n.ShowsForm) (hChild : child ∈ n.children) :
    child.ShowsForm :=
  fun part hPart => h part (.inside hChild hPart)

end Node

namespace Emit

open Lexer (IsName truthWord startsWord)
open Numeral (IsRun Breaks wordNumbers)

/-! ### Names, truth values and numbers -/

/-- An expression that is one run, and its text. -/
inductive IsAtom : Node → String → Prop where
  | name {word : String} (named : IsName word) : IsAtom (.identifier word) word
  | truth (b : Bool) : IsAtom (.bool b) (truthWord b)
  | number {v : Value} {text : String} (numeral : IsNumeral v) (written : v.write = .ok text)
      (apart : text ∉ wordNumbers) : IsAtom (.number v) text

namespace IsAtom

variable {n : Node} {text : String}

/-- An atom is written as one run. -/
theorem isRun (h : IsAtom n text) : IsRun text.toList := by
  cases h with
  | name named => exact named.isRun
  | truth b =>
      have hParts : (truthWord b).toList.all Lexer.isWordPart = true := by cases b <;> rfl
      exact Numeral.isRun_of_isWordPart (List.all_eq_true.mp hParts)
  | number numeral written apart => exact (numeral.isNumberText written apart).run

/-- Atoms with one text are equal. Words are names or truth values, and numbers
begin as no word does. -/
theorem eq_of_text {m : Node} (hn : IsAtom n text) (hm : IsAtom m text) : n = m := by
  cases hn with
  | name named =>
      cases hm with
      | name _ => rfl
      | truth b => exact absurd named (Lexer.not_isName_truthWord b)
      | number numeral written apart =>
          exact absurd named.startsWord (numeral.not_startsWord written apart)
  | truth b =>
      have hWords : ∀ b c, truthWord b = truthWord c → b = c := by decide
      generalize hText : truthWord b = text at hm
      cases hm with
      | name named => exact absurd (hText ▸ named) (Lexer.not_isName_truthWord b)
      | truth c => rw [hWords b c hText]
      | number numeral written apart =>
          exact absurd (hText ▸ Lexer.startsWord_truthWord b)
            (numeral.not_startsWord written apart)
  | number numeral written apart =>
      have hNot := numeral.not_startsWord written apart
      cases hm with
      | name named => exact absurd named.startsWord hNot
      | truth b => exact absurd (Lexer.startsWord_truthWord b) hNot
      | number numeral' written' _ => rw [numeral.eq_of_write written numeral' written']

/-- No atom is written as the word that announces waiting. -/
theorem ne_await (h : IsAtom n text) : text ≠ "await" := by
  intro hText
  cases h with
  | name named =>
      have hReserved : Terminal.reserved.lookup "await" ≠ none := by decide
      exact hReserved (hText ▸ named.unreserved)
  | truth b =>
      have hWords : ∀ b, truthWord b ≠ "await" := by decide
      exact hWords b hText
  | number numeral written apart =>
      have hNot := numeral.not_startsWord written apart
      rw [hText] at hNot
      exact hNot (by decide)

theorem ne_nil (h : IsAtom n text) : text.toList ≠ [] := by
  cases h with
  | name named =>
      obtain ⟨first, more, hWord, -⟩ := named.spelled
      rw [hWord]
      exact List.cons_ne_nil _ _
  | truth b =>
      have hWords : ∀ b, (truthWord b).toList ≠ [] := by decide
      exact hWords b
  | number numeral written apart =>
      obtain ⟨c, rest, hText, -⟩ := (numeral.isNumberText written apart).starts
      rw [hText]
      exact List.cons_ne_nil _ _

/-- What belongs to no run begins no atom. -/
theorem ne_cons (h : IsAtom n text) {c : Char} (hc : Numeral.isRunPart c = false)
    (hPoint : c ≠ '.') {rest more : List Char} : c :: rest ≠ text.toList ++ more := by
  intro hText
  have hBreaks : Breaks (text.toList ++ more) := hText ▸ Numeral.breaks_cons hc hPoint rest
  exact h.ne_nil (hBreaks.eq_nil h.isRun)

end IsAtom

/-! ### Reading -/

/-- Where reading stands: in front of an expression, behind one that may go on,
or among the arguments of a call. -/
inductive Stage where
  | fresh
  | after (base : Node)
  | given (function : Node) (arguments : List Node)

/-- What stands behind a whole expression. -/
def Ends (rest : List Char) : Prop := ∀ c ∈ rest.head?, c ∈ [' ', ')', ',']

/-- From such a place on, the text is read to this expression up to the
rest. -/
inductive Reads : Stage → List Char → Node → List Char → Prop where
  | await {text rest : List Char} {e : Node} (inner : Reads .fresh text e rest) :
      Reads .fresh ('a' :: 'w' :: 'a' :: 'i' :: 't' :: ' ' :: text) (.await e) rest
  | atom {text : String} {more rest : List Char} {n e : Node} (plain : IsAtom n text)
      (goes : Reads (.after n) more e rest) : Reads .fresh (text.toList ++ more) e rest
  | literal {body : String} {more rest : List Char} {e : Node}
      (legal : Run.IsLiteralBody body.toList)
      (goes : Reads (.after (.string body)) more e rest) :
      Reads .fresh ('"' :: (body.toList ++ '"' :: more)) e rest
  | negation {text more rest : List Char} {x e : Node} (inner : Reads .fresh text x (')' :: more))
      (goes : Reads (.after (.unary "!" x)) more e rest) : Reads .fresh ('(' :: '!' :: text) e rest
  | operation {text next more rest : List Char} {operator : String} {l r e : Node}
      (left : Reads .fresh text l (' ' :: (operator.toList ++ ' ' :: next)))
      (joined : ' ' ∉ operator.toList)
      (right : Reads .fresh next r (')' :: more))
      (goes : Reads (.after (.binary l operator r)) more e rest) :
      Reads .fresh ('(' :: text) e rest
  | stop {rest : List Char} {e : Node} (ends : Ends rest) : Reads (.after e) rest e rest
  | member {word : String} {more rest : List Char} {base e : Node} (named : IsName word)
      (goes : Reads (.after (.member base word)) more e rest) :
      Reads (.after base) ('.' :: (word.toList ++ more)) e rest
  | callAlone {more rest : List Char} {f e : Node}
      (goes : Reads (.after (.call f [])) more e rest) :
      Reads (.after f) ('(' :: ')' :: more) e rest
  | call {text rest : List Char} {f e : Node} (goes : Reads (.given f []) text e rest) :
      Reads (.after f) ('(' :: text) e rest
  | argument {text more rest : List Char} {f x e : Node} {xs : List Node}
      (inner : Reads .fresh text x (',' :: ' ' :: more))
      (goes : Reads (.given f (xs ++ [x])) more e rest) :
      Reads (.given f xs) text e rest
  | lastArgument {text more rest : List Char} {f x e : Node} {xs : List Node}
      (inner : Reads .fresh text x (')' :: more))
      (goes : Reads (.after (.call f (xs ++ [x]))) more e rest) :
      Reads (.given f xs) text e rest

theorem Ends.breaks {rest : List Char} (h : Ends rest) : Breaks rest := by
  cases rest with
  | nil => exact ⟨stops_nil, fun _ hText => by cases hText⟩
  | cons c more =>
      have hMarks : ∀ c ∈ [' ', ')', ','], Numeral.isRunPart c = false ∧ c ≠ '.' :=
        List.forall_mem_cons.mpr ⟨by decide, List.forall_mem_cons.mpr ⟨by decide,
          List.forall_mem_singleton.mpr (by decide)⟩⟩
      obtain ⟨hPart, hPoint⟩ := hMarks c (h c rfl)
      exact Numeral.breaks_cons hPart hPoint more

namespace Reads

variable {text more rest : List Char} {n e : Node}

/-- What goes on behind an expression does not prolong its last run. -/
theorem breaks (h : Reads (.after n) text e rest) : Breaks text := by
  cases h with
  | stop ends => exact ends.breaks
  | member named _ => exact named.breaks _
  | callAlone _ | call _ => exact Numeral.breaks_cons (by decide) (by decide) _

/-! Each way to begin an expression is known from the text. -/

theorem isRun_await : IsRun ['a', 'w', 'a', 'i', 't'] :=
  Numeral.isRun_of_isWordPart (List.all_eq_true.mp rfl)

/-- A text that begins with the word for waiting and a blank is read as
waiting. The run in front of the blank would be that word, and no atom is
written so. -/
theorem of_await (h : Reads .fresh ('a' :: 'w' :: 'a' :: 'i' :: 't' :: ' ' :: text) e rest) :
    ∃ x, e = .await x ∧ Reads .fresh text x rest := by
  generalize hText : 'a' :: 'w' :: 'a' :: 'i' :: 't' :: ' ' :: text = whole at h
  cases h with
  | await inner =>
      simp only [List.cons.injEq, true_and] at hText
      exact ⟨_, rfl, hText ▸ inner⟩
  | @atom word more _ _ _ plain goes =>
      have hBlank : Breaks (' ' :: text) := Numeral.breaks_cons (by decide) (by decide) text
      obtain ⟨hWord, -⟩ := isRun_await.eq_of_append plain.isRun hBlank goes.breaks hText
      exact absurd (String.toList_inj.mp hWord.symm) plain.ne_await
  | literal _ _ | negation _ _ | operation _ _ _ _ => simp at hText

/-- A text that begins with an atom is read as the atom and what follows it. -/
theorem of_atom {word : String} (hAtom : IsAtom n word) (hBreaks : Breaks more)
    (h : Reads .fresh (word.toList ++ more) e rest) : Reads (.after n) more e rest := by
  generalize hText : word.toList ++ more = whole at h
  cases h with
  | @await text _ _ _ =>
      have hBlank : Breaks (' ' :: text) := Numeral.breaks_cons (by decide) (by decide) text
      obtain ⟨hWord, -⟩ := hAtom.isRun.eq_of_append isRun_await hBreaks hBlank hText
      exact absurd (String.toList_inj.mp hWord) hAtom.ne_await
  | atom plain goes =>
      obtain ⟨hWord, rfl⟩ := hAtom.isRun.eq_of_append plain.isRun hBreaks goes.breaks hText
      rw [String.toList_inj] at hWord
      subst hWord
      rw [hAtom.eq_of_text plain]
      exact goes
  | literal _ _ | negation _ _ | operation _ _ _ _ =>
      exact absurd hText.symm (hAtom.ne_cons (by decide) (by decide))

/-- A text that begins with a literal is read as the literal and what follows
it. -/
theorem of_literal {body : String} (hBody : Run.IsLiteralBody body.toList)
    (h : Reads .fresh ('"' :: (body.toList ++ '"' :: more)) e rest) :
    Reads (.after (.string body)) more e rest := by
  generalize hText : '"' :: (body.toList ++ '"' :: more) = whole at h
  cases h with
  | await _ | negation _ _ | operation _ _ _ _ => simp at hText
  | atom plain _ => exact absurd hText (plain.ne_cons (by decide) (by decide))
  | @literal body' more' _ _ legal goes =>
      have hFirst := Lexer.literalBody_of_isLiteralBody hBody more
      rw [(List.cons.inj hText).2, Lexer.literalBody_of_isLiteralBody legal more'] at hFirst
      obtain ⟨hSame, rfl⟩ := Prod.mk.inj (Option.some.inj hFirst)
      rw [← String.toList_inj.mp hSame]
      exact goes

/-- An operator reaches up to the first blank. -/
theorem eq_of_blank {operator operator' next next' : List Char} (h : ' ' ∉ operator)
    (h' : ' ' ∉ operator') (hText : operator ++ ' ' :: next = operator' ++ ' ' :: next') :
    operator = operator' ∧ next = next' := by
  have hRun : ∀ {word : List Char}, ' ' ∉ word → ∀ c ∈ word, (c != ' ') = true :=
    fun hWord c hc => bne_iff_ne.mpr fun hBlank => hWord (hBlank ▸ hc)
  have hStops : ∀ next, Stops (· != ' ') (' ' :: next) := stops_cons rfl
  have hSame : operator = operator' := by
    rw [← takeWhile_run (hRun h) (hStops next), hText, takeWhile_run (hRun h') (hStops next')]
  subst hSame
  exact ⟨rfl, (List.cons.inj (List.append_cancel_left hText)).2⟩

/-- An expression begins neither with an exclamation mark nor with a closing
parenthesis. -/
theorem head_ne (h : Reads .fresh text e rest) {d : Char} (hd : d ∈ ['!', ')']) :
    text.head? ≠ some d := by
  intro hHead
  obtain ⟨tail, hText⟩ := List.head?_eq_some_iff.mp hHead
  have hMarks : ∀ d ∈ ['!', ')'], Numeral.isRunPart d = false ∧ d ≠ '.' ∧
      d ∉ ['a', '"', '('] :=
    List.forall_mem_cons.mpr ⟨by decide, List.forall_mem_singleton.mpr (by decide)⟩
  obtain ⟨hPart, hPoint, hOther⟩ := hMarks d hd
  cases h with
  | await _ | literal _ _ | negation _ _ | operation _ _ _ _ =>
      obtain ⟨rfl, -⟩ := List.cons.inj hText
      exact hOther (by decide)
  | atom plain _ => exact plain.ne_cons hPart hPoint hText.symm

/-- A parenthesis with an exclamation mark behind it is read as a negation, up
to the parenthesis that closes it. -/
theorem of_negation (h : Reads .fresh ('(' :: '!' :: text) e rest) :
    ∃ x more, Reads .fresh text x (')' :: more) ∧
      Reads (.after (.unary "!" x)) more e rest := by
  generalize hText : '(' :: '!' :: text = whole at h
  cases h with
  | await _ | literal _ _ => simp at hText
  | atom plain _ => exact absurd hText (plain.ne_cons (by decide) (by decide))
  | negation inner goes =>
      simp only [List.cons.injEq, true_and] at hText
      exact ⟨_, _, hText ▸ inner, goes⟩
  | operation left _ _ _ =>
      obtain ⟨-, rfl⟩ := List.cons.inj hText
      exact absurd rfl (left.head_ne (by decide))

/-- Any other parenthesis is read as an operation: an operand, the operator
between blanks, and another operand. -/
theorem of_operation (hFirst : text.head? ≠ some '!') (h : Reads .fresh ('(' :: text) e rest) :
    ∃ (l r : Node) (operator : String) (next more : List Char),
      Reads .fresh text l (' ' :: (operator.toList ++ ' ' :: next)) ∧ ' ' ∉ operator.toList ∧
        Reads .fresh next r (')' :: more) ∧
          Reads (.after (.binary l operator r)) more e rest := by
  generalize hText : '(' :: text = whole at h
  cases h with
  | await _ | literal _ _ => simp at hText
  | atom plain _ => exact absurd hText (plain.ne_cons (by decide) (by decide))
  | negation _ _ =>
      obtain ⟨-, rfl⟩ := List.cons.inj hText
      exact absurd rfl hFirst
  | operation left joined right goes =>
      obtain ⟨-, rfl⟩ := List.cons.inj hText
      exact ⟨_, _, _, _, _, left, joined, right, goes⟩

theorem head_ne_of_given {f : Node} {xs : List Node} (h : Reads (.given f xs) text e rest) :
    text.head? ≠ some ')' := by
  cases h with
  | argument inner _ | lastArgument inner _ => exact inner.head_ne (by decide)

/-! So is each way to go on behind an expression. -/

/-- Where an expression ends it is read as it is. -/
theorem of_ends (hEnds : Ends text) (h : Reads (.after n) text e rest) : n = e ∧ text = rest := by
  cases h with
  | stop _ => exact ⟨rfl, rfl⟩
  | member _ _ | callAlone _ | call _ => exact absurd (hEnds _ rfl) (by decide)

/-- A point behind an expression is read as the beginning of a member, up to
the end of the name. -/
theorem of_member {word : String} (hName : IsName word) (hBreaks : Breaks more)
    (h : Reads (.after n) ('.' :: (word.toList ++ more)) e rest) :
    Reads (.after (.member n word)) more e rest := by
  generalize hText : '.' :: (word.toList ++ more) = whole at h
  cases h with
  | stop ends => exact absurd (ends '.' (hText ▸ rfl)) (by decide)
  | member named goes =>
      obtain ⟨hWord, rfl⟩ :=
        hName.isRun.eq_of_append named.isRun hBreaks goes.breaks (List.cons.inj hText).2
      rw [String.toList_inj.mp hWord]
      exact goes
  | callAlone _ | call _ => simp at hText

theorem of_callAlone (h : Reads (.after n) ('(' :: ')' :: more) e rest) :
    Reads (.after (.call n [])) more e rest := by
  cases h with
  | stop ends => exact absurd (ends '(' rfl) (by decide)
  | callAlone goes => exact goes
  | call goes => exact absurd rfl goes.head_ne_of_given

/-- A parenthesis behind an expression opens the arguments of a call, if no
parenthesis follows at once. -/
theorem of_call (hFirst : text.head? ≠ some ')') (h : Reads (.after n) ('(' :: text) e rest) :
    Reads (.given n []) text e rest := by
  cases h with
  | stop ends => exact absurd (ends '(' rfl) (by decide)
  | callAlone _ => exact absurd rfl hFirst
  | call goes => exact goes

/-- A text is read in one way. The induction is on the reading; at each mark
the other reading has no choice, and an operand ends where it ends alone. -/
theorem unique {stage : Stage} {e' : Node} {rest' : List Char} (h : Reads stage text e rest)
    (h' : Reads stage text e' rest') : e = e' ∧ rest = rest' := by
  induction h generalizing e' rest' with
  | await _ ih =>
      obtain ⟨x, rfl, hInner⟩ := h'.of_await
      obtain ⟨rfl, hRest⟩ := ih hInner
      exact ⟨rfl, hRest⟩
  | atom plain goes ih => exact ih (of_atom plain goes.breaks h')
  | literal legal _ ih => exact ih (of_literal legal h')
  | negation _ _ ihInner ih =>
      obtain ⟨x, more, hInner, hGoes⟩ := h'.of_negation
      obtain ⟨rfl, hMore⟩ := ihInner hInner
      cases hMore
      exact ih hGoes
  | operation left joined _ _ ihLeft ihRight ih =>
      obtain ⟨l, r, operator, next, more, hLeft, hJoined, hRight, hGoes⟩ :=
        of_operation (left.head_ne (by decide)) h'
      obtain ⟨rfl, hOperator⟩ := ihLeft hLeft
      obtain ⟨hSame, rfl⟩ := eq_of_blank joined hJoined (List.cons.inj hOperator).2
      obtain ⟨rfl, hMore⟩ := ihRight hRight
      cases hMore
      rw [String.toList_inj.mp hSame] at ih
      exact ih hGoes
  | stop ends => exact of_ends ends h'
  | member named goes ih => exact ih (of_member named goes.breaks h')
  | callAlone _ ih => exact ih h'.of_callAlone
  | call goes ih => exact ih (of_call goes.head_ne_of_given h')
  | argument _ _ ihInner ih =>
      cases h' with
      | argument inner goes =>
          obtain ⟨rfl, hMore⟩ := ihInner inner
          cases hMore
          exact ih goes
      | lastArgument inner _ =>
          obtain ⟨-, hMore⟩ := ihInner inner
          simp at hMore
  | lastArgument _ _ ihInner ih =>
      cases h' with
      | argument inner _ =>
          obtain ⟨-, hMore⟩ := ihInner inner
          simp at hMore
      | lastArgument inner goes =>
          obtain ⟨rfl, hMore⟩ := ihInner inner
          cases hMore
          exact ih goes

end Reads

/-! ### Expressions that are read as themselves -/

/-- The text is read as the expression, and if this does not wait, so are calls
and members behind it. -/
structure IsRead (e : Node) (text : String) : Prop where
  whole : ∀ rest, Ends rest → Reads .fresh (text.toList ++ rest) e rest
  begun : e.isAwait = false → ∀ more e' rest, Reads (.after e) more e' rest →
      Reads .fresh (text.toList ++ more) e' rest

/-- What is read together with whatever follows it is read alone, too, since
the end may follow. -/
theorem isRead_of_begun {e : Node} {text : String}
    (h : ∀ more e' rest, Reads (.after e) more e' rest →
      Reads .fresh (text.toList ++ more) e' rest) : IsRead e text where
  whole rest hEnds := h rest e rest (.stop hEnds)
  begun _ := h

theorem ends_cons {c : Char} (h : c ∈ [' ', ')', ',']) (rest : List Char) : Ends (c :: rest) := by
  rintro _ ⟨⟩
  exact h

/-- The arguments of a call are read one by one. -/
theorem reads_arguments {xs : List Node} {texts : List String} (h : List.Forall₂ IsRead xs texts)
    (hSome : xs ≠ []) {f e : Node} {before : List Node} {more rest : List Char}
    (hGoes : Reads (.after (.call f (before ++ xs))) more e rest) :
    Reads (.given f before) ((", ".intercalate texts).toList ++ ')' :: more) e rest := by
  induction h generalizing before with
  | nil => exact absurd rfl hSome
  | @cons x text xs texts first others ih =>
      cases others with
      | nil =>
          rw [String.intercalate_singleton]
          exact .lastArgument (first.whole _ (ends_cons (by decide) _)) hGoes
      | @cons y second ys texts _ _ =>
          have hText : (", ".intercalate (text :: second :: texts)).toList ++ ')' :: more =
              text.toList ++ ',' :: ' ' ::
                ((", ".intercalate (second :: texts)).toList ++ ')' :: more) := by
            simp
          rw [hText]
          refine .argument (first.whole _ (ends_cons (by decide) _)) (ih (List.cons_ne_nil _ _) ?_)
          rw [List.append_assoc]
          exact hGoes

/-- A call is read from its text, if the function and the arguments are read
from theirs and the function does not wait. -/
theorem isRead_call {f : Node} {text : String} {xs : List Node} {texts : List String}
    (hFunction : IsRead f text) (hWaits : f.isAwait = false) (h : List.Forall₂ IsRead xs texts) :
    IsRead (.call f xs) (text ++ "(" ++ ", ".intercalate texts ++ ")") := by
  apply isRead_of_begun
  intro more e rest hGoes
  have hText : (text ++ "(" ++ ", ".intercalate texts ++ ")").toList ++ more =
      text.toList ++ '(' :: ((", ".intercalate texts).toList ++ ')' :: more) := by simp
  rw [hText]
  apply hFunction.begun hWaits
  cases h with
  | nil => exact .callAlone hGoes
  | cons first others =>
      exact .call (reads_arguments (.cons first others) (List.cons_ne_nil _ _) hGoes)

/-- A member is read from its text, if its object is read from its own and does
not wait. -/
theorem isRead_member {o : Node} {text word : String} (hObject : IsRead o text)
    (hWaits : o.isAwait = false) (hName : IsName word) :
    IsRead (.member o word) (text ++ "." ++ word) := by
  apply isRead_of_begun
  intro more e rest hGoes
  have hText : (text ++ "." ++ word).toList ++ more = text.toList ++ '.' ::
      (word.toList ++ more) := by simp
  rw [hText]
  exact hObject.begun hWaits _ _ _ (.member hName hGoes)

/-- An operation in parentheses is read from its text, if its operands are read
from theirs and there is no blank in the operator. -/
theorem isRead_binary {l r : Node} {left right operator : String} (hLeft : IsRead l left)
    (hRight : IsRead r right) (hJoined : ' ' ∉ operator.toList) :
    IsRead (.binary l operator r) ("(" ++ left ++ " " ++ operator ++ " " ++ right ++ ")") := by
  apply isRead_of_begun
  intro more e rest hGoes
  have hText : ("(" ++ left ++ " " ++ operator ++ " " ++ right ++ ")").toList ++ more =
      '(' :: (left.toList ++ ' ' :: (operator.toList ++ ' ' :: (right.toList ++ ')' :: more))) := by
    simp
  rw [hText]
  exact .operation (hLeft.whole _ (ends_cons (by decide) _)) hJoined
    (hRight.whole _ (ends_cons (by decide) _)) hGoes

theorem isRead_negation {x : Node} {text : String} (h : IsRead x text) :
    IsRead (.unary "!" x) ("(" ++ "!" ++ text ++ ")") := by
  apply isRead_of_begun
  intro more e rest hGoes
  have hText : ("(" ++ "!" ++ text ++ ")").toList ++ more =
      '(' :: '!' :: (text.toList ++ ')' :: more) := by simp
  rw [hText]
  exact .negation (h.whole _ (ends_cons (by decide) _)) hGoes

theorem isRead_await {x : Node} {text : String} (h : IsRead x text) :
    IsRead (.await x) ("await " ++ text) where
  whole rest hEnds := by
    have hText : ("await " ++ text).toList ++ rest =
        'a' :: 'w' :: 'a' :: 'i' :: 't' :: ' ' :: (text.toList ++ rest) := by simp
    rw [hText]
    exact .await (h.whole rest hEnds)
  begun hWaits := by cases hWaits

theorem isRead_literal {body : String} (h : Run.IsLiteralBody body.toList) :
    IsRead (.string body) ("\"" ++ body ++ "\"") := by
  apply isRead_of_begun
  intro more e rest hGoes
  have hText : ("\"" ++ body ++ "\"").toList ++ more = '"' :: (body.toList ++ '"' :: more) := by
    simp
  rw [hText]
  exact .literal h hGoes

theorem isRead_atom {n : Node} {text : String} (h : IsAtom n text) : IsRead n text :=
  isRead_of_begun fun _ _ _ hGoes => .atom h hGoes

/-- Arguments that have texts and are read from them have such texts as a
list. -/
theorem exists_isRead_arguments {xs : List Node}
    (h : ∀ x ∈ xs, ∃ text, expression x = .ok text ∧ IsRead x text) :
    ∃ texts, expressions xs = .ok texts ∧ List.Forall₂ IsRead xs texts := by
  induction xs with
  | nil => exact ⟨[], rfl, .nil⟩
  | cons x rest ih =>
      obtain ⟨text, hText, hRead⟩ := h x (.head _)
      obtain ⟨texts, hTexts, hReads⟩ := ih fun y hy => h y (.tail _ hy)
      refine ⟨text :: texts, ?_, .cons hRead hReads⟩
      rw [expressions, hText, hTexts]
      rfl

/-- Every expression whose form shows is read as itself. The induction is on
the expression. A call or a member of what waits, and a number that is written
as a word, do not occur in it. -/
theorem exists_isRead {e : Node} (h : IsExpression e) (hShows : e.ShowsForm) :
    ∃ text, expression e = .ok text ∧ IsRead e text := by
  induction h with
  | @number v numeral =>
      obtain ⟨text, hText⟩ := numeral.exists_write
      have hShown := hShows _ .here
      rw [Node.showsForm_number hText] at hShown
      have hApart : text ∉ wordNumbers := fun hWord => by simp [hWord] at hShown
      refine ⟨text, ?_, isRead_atom (.number numeral hText hApart)⟩
      rw [expression, hText]
      rfl
  | string literal => exact ⟨_, rfl, isRead_literal (Lexer.isLiteral_iff.mp literal)⟩
  | bool b => exact ⟨_, rfl, isRead_atom (.truth b)⟩
  | identifier named => exact ⟨_, rfl, isRead_atom (.name named)⟩
  | @assignment name operator value named assigns _ ih =>
      obtain ⟨text, hText, hRead⟩ := ih (hShows.child (.tail _ (.head _)))
      have hJoined : ∀ operator ∈ ["=", "+="], ' ' ∉ operator.toList := by decide
      refine ⟨_, ?_, isRead_binary (isRead_atom (.name named)) hRead
        (hJoined operator (by simpa using assigns))⟩
      rw [expression, expression, hText]
      rfl
  | @binary _ _ operator operates _ _ ihLeft ihRight =>
      have hJoined : ∀ operator ∈ binaryOperators, ' ' ∉ operator.toList := by decide
      obtain ⟨left, hLeft, hLeftRead⟩ := ihLeft (hShows.child (.head _))
      obtain ⟨right, hRight, hRightRead⟩ := ihRight (hShows.child (.tail _ (.head _)))
      refine ⟨_, ?_, isRead_binary hLeftRead hRightRead (hJoined operator operates)⟩
      rw [expression, hLeft, hRight]
      rfl
  | negation _ ih =>
      obtain ⟨text, hText, hRead⟩ := ih (hShows.child (.head _))
      refine ⟨_, ?_, isRead_negation hRead⟩
      rw [expression, hText]
      rfl
  | await _ ih =>
      obtain ⟨text, hText, hRead⟩ := ih (hShows.child (.head _))
      refine ⟨_, ?_, isRead_await hRead⟩
      rw [expression, hText]
      rfl
  | call _ _ ihFunction ihArguments =>
      obtain ⟨text, hText, hRead⟩ := ihFunction (hShows.child (.head _))
      obtain ⟨texts, hTexts, hReads⟩ :=
        exists_isRead_arguments fun x hx => ihArguments x hx (hShows.child (.tail _ hx))
      refine ⟨_, ?_, isRead_call hRead (Bool.eq_false_of_not_eq_true' (hShows _ .here)) hReads⟩
      rw [expression, hText, hTexts]
      rfl
  | member _ named ih =>
      obtain ⟨text, hText, hRead⟩ := ih (hShows.child (.head _))
      refine ⟨_, ?_, isRead_member hRead (Bool.eq_false_of_not_eq_true' (hShows _ .here)) named⟩
      rw [expression, hText]
      rfl

/-- Expressions whose form shows have different texts. -/
theorem eq_of_expression_eq {a b : Node} (ha : IsExpression a) (hb : IsExpression b)
    (hShows : a.ShowsForm) (hOther : b.ShowsForm) (h : expression a = expression b) : a = b := by
  obtain ⟨s, hs, hFirst⟩ := exists_isRead ha hShows
  obtain ⟨t, ht, hSecond⟩ := exists_isRead hb hOther
  have hText : s = t := Except.ok.inj (hs.symm.trans (h.trans ht))
  have hEnds : Ends [] := by rintro _ ⟨⟩
  exact ((hFirst.whole [] hEnds).unique (hText ▸ hSecond.whole [] hEnds)).1

end Emit

end PageScript
