import PageScript.Proofs.Token.Laid

/-! Scanning loses nothing. Every piece that the scanner cuts off is a blank, a
comment, the longest token that begins there, or a single character with which
no token begins. Main statement: a text without overlong numbers is scanned
without a fault, and it is made of its tokens, each at its own place, and of
blanks, comments and reported characters. -/
namespace PageScript

theorem Cursor.offset_after (here : Cursor) (passed : List Char) :
    (here.after passed).offset = here.offset + passed.length := by
  induction passed generalizing here with
  | nil => rfl
  | cons c rest ih =>
      have hStep : (here.step c).offset = here.offset + 1 := by
        unfold Cursor.step
        split <;> rfl
      have hRest := ih (here.step c)
      rw [hStep] at hRest
      rw [List.length_cons, Nat.add_comm rest.length 1, ← Nat.add_assoc]
      exact hRest

namespace Lexer

/-! ### How lexemes begin -/

/-- A lexeme with this first character, and what it is. -/
inductive BeginsAs (first : Char) (more : List Char) : Prop where
  | word (starts : isWordStart first = true) (goes : ∀ c ∈ more, isWordPart c = true)
  | digits (starts : Digit.isDigit first = true) (goes : ∀ c ∈ more, Digit.isDigit c = true)
  | decimal {others places : List Char} (starts : Digit.isDigit first = true)
      (goes : ∀ c ∈ others, Digit.isDigit c = true) (after : IsDigits places)
      (split : more = others ++ '.' :: places)
  | literal {body : List Char} (starts : first = '"') (legal : Run.IsLiteralBody body)
      (closed : more = body ++ ['"'])
  | mark {mark : String × Terminal} (starts : startsMark mark.1.toList first = true)
      (listed : mark ∈ Terminal.marks)
      (spells : mark.1.toList = first :: more)

/-- The spelling of a token begins with a character that tells which sort of
token it is. No two sorts begin alike. -/
theorem Spelled.begins {token : Terminal × Value} {lexeme : List Char} (h : Spelled token lexeme) :
    ∃ first more, lexeme = first :: more ∧ BeginsAs first more := by
  cases h with
  | @mark spelling kind listed =>
      obtain ⟨first, hHead, hStart⟩ := (Option.any_eq_true _ _).mp (marks_start _ listed)
      obtain ⟨more, hSpelling⟩ := List.head?_eq_some_iff.mp hHead
      exact ⟨first, more, hSpelling, .mark hStart listed hSpelling⟩
  | name named =>
      obtain ⟨first, more, hWord, hFirst, hMore⟩ := named.spelled
      exact ⟨first, more, hWord, .word hFirst hMore⟩
  | reserved listed _ =>
      obtain ⟨first, more, hWord, hFirst, hMore⟩ := reserved_spelled listed
      exact ⟨first, more, hWord, .word hFirst hMore⟩
  | truth b =>
      cases b with
      | true => exact ⟨'t', ['r', 'u', 'e'], rfl, .word (by decide) (List.all_eq_true.mp rfl)⟩
      | false =>
          exact ⟨'f', ['a', 'l', 's', 'e'], rfl, .word (by decide) (List.all_eq_true.mp rfl)⟩
  | integer run _ =>
      obtain ⟨first, more, rfl⟩ := List.exists_cons_of_ne_nil run.nonempty
      obtain ⟨hFirst, hMore⟩ := List.forall_mem_cons.mp run.all
      exact ⟨first, more, rfl, .digits hFirst hMore⟩
  | @decimal whole places before after =>
      obtain ⟨first, more, rfl⟩ := List.exists_cons_of_ne_nil before.nonempty
      obtain ⟨hFirst, hMore⟩ := List.forall_mem_cons.mp before.all
      exact ⟨first, more ++ '.' :: places, rfl, .decimal hFirst hMore after rfl⟩
  | @literal body legal => exact ⟨'"', body.toList ++ ['"'], rfl, .literal rfl legal rfl⟩

/-- The first characters of the forms are told apart. -/
theorem startsMark_iff {spelling : List Char} {c : Char} : startsMark spelling c = true ↔
    isBlank c = false ∧ isWordStart c = false ∧ Digit.isDigit c = false ∧ c ≠ '"' ∧
      (c ≠ '/' ∨ spelling.length = 1) := by
  simp [startsMark, and_assoc]

/-- No token that begins the text is longer. -/
def Longest (lexeme text : List Char) : Prop :=
  ∀ token other, Spelled token other → other <+: text → other.length ≤ lexeme.length

/-- No token begins the text. -/
def Unspelled (text : List Char) : Prop :=
  ∀ token other, Spelled token other → ¬ other <+: text

/-- Whatever token begins a text, it begins as the text does. -/
theorem Spelled.begins_prefix {token : Terminal × Value} {other : List Char}
    (h : Spelled token other) {c : Char} {rest : List Char} (hPrefix : other <+: c :: rest) :
    ∃ more, other = c :: more ∧ more <+: rest ∧ BeginsAs c more := by
  obtain ⟨first, more, rfl, hBegins⟩ := h.begins
  obtain ⟨rfl, hMore⟩ := List.cons_prefix_cons.mp hPrefix
  exact ⟨more, rfl, hMore, hBegins⟩

/-! ### The longest token -/

/-- A word is the longest token that begins with its first character: what is
longer has a character that cannot be in a word. -/
theorem longest_word {c : Char} (hStart : isWordStart c = true) (rest : List Char) :
    Longest (c :: rest.takeWhile isWordPart) (c :: rest) := by
  intro token other hSpelled hPrefix
  obtain ⟨more, rfl, hMore, hBegins⟩ := hSpelled.begins_prefix hPrefix
  have hDigit := isDigit_eq_false hStart
  cases hBegins with
  | word _ goes => exact Nat.succ_le_succ (length_le_takeWhile goes hMore)
  | digits starts _ => rw [hDigit] at starts; cases starts
  | decimal starts => rw [hDigit] at starts; cases starts
  | literal starts =>
      subst starts
      cases hStart
  | mark starts =>
      rw [(startsMark_iff.mp starts).2.1] at hStart
      cases hStart

/-- A word is a token: a name if it is not reserved, and otherwise a truth
value or a token of its own kind. -/
theorem spelled_wordToken {first : Char} {more : List Char} (hFirst : isWordStart first = true)
    (hMore : ∀ c ∈ more, isWordPart c = true) :
    ∃ kind value, wordToken (first :: more) = .token kind value (first :: more) ∧
      Spelled (kind, value) (first :: more) := by
  have hToList : (String.ofList (first :: more)).toList = first :: more := String.toList_ofList
  cases hLookup : Terminal.reserved.lookup (String.ofList (first :: more)) with
  | none =>
      have hName : IsName (String.ofList (first :: more)) :=
        ⟨⟨first, more, hToList, hFirst, hMore⟩, hLookup⟩
      have hSpelled := Spelled.name hName
      have hToken := wordToken_of_isName hName
      rw [hToList] at hSpelled hToken
      exact ⟨_, _, hToken, hSpelled⟩
  | some kind =>
      obtain ⟨before, after, hReserved, -⟩ := List.lookup_eq_some_iff.mp hLookup
      have hListed : (String.ofList (first :: more), kind) ∈ Terminal.reserved := by
        rw [hReserved]
        exact List.mem_append_right _ (.head _)
      by_cases hBoolean : kind = .boolean
      · subst hBoolean
        have hTruths : ∀ entry ∈ Terminal.reserved, entry.2 = .boolean →
            entry.1 = truthWord (entry.1 == "true") := by
          decide
        have hSpelled := Spelled.truth (String.ofList (first :: more) == "true")
        rw [← hTruths _ hListed rfl, hToList] at hSpelled
        exact ⟨_, _, by rw [wordToken, hLookup], hSpelled⟩
      · have hSpelled := Spelled.reserved hListed hBoolean
        have hToken := wordToken_of_reserved hListed hBoolean
        rw [hToList] at hSpelled hToken
        exact ⟨_, _, hToken, hSpelled⟩

/-- The digits behind a point end where no digit follows. -/
theorem fraction?_some {text places beyond : List Char}
    (h : fraction? text = some (places, beyond)) :
    text = '.' :: (places ++ beyond) ∧ IsDigits places := by
  unfold fraction? at h
  split at h
  · rename_i c rest
    split at h
    · rename_i hDigit
      cases h
      rw [List.cons_append, List.takeWhile_append_dropWhile]
      exact ⟨rfl, List.cons_ne_nil _ _,
        List.forall_mem_cons.mpr ⟨hDigit, List.all_eq_true.mp List.all_takeWhile⟩⟩
    · cases h
  · cases h

/-- Digits behind a point belong to a fraction that is at least as long. -/
theorem fraction?_of_prefix {text places : List Char} (hPlaces : IsDigits places)
    (h : '.' :: places <+: text) :
    ∃ longer beyond, fraction? text = some (longer, beyond) ∧
      places.length ≤ longer.length := by
  obtain ⟨place, others, rfl⟩ := List.exists_cons_of_ne_nil hPlaces.nonempty
  obtain ⟨hPlace, hOthers⟩ := List.forall_mem_cons.mp hPlaces.all
  obtain ⟨rest, rfl⟩ := h
  refine ⟨place :: (others ++ rest).takeWhile Digit.isDigit,
    (others ++ rest).dropWhile Digit.isDigit, ?_, ?_⟩
  · rw [List.cons_append, List.cons_append, fraction?, if_pos hPlace]
  · exact Nat.succ_le_succ (length_le_takeWhile hOthers (List.prefix_append _ _))

/-- What begins with a digit and is a token is a run of digits, or the whole
run with a fraction behind it. A point ends the run, so the run is all of the
digits before it. -/
theorem Spelled.number_prefix {token : Terminal × Value} {other : List Char}
    (h : Spelled token other) {c : Char} {rest : List Char} (hDigit : Digit.isDigit c = true)
    (hPrefix : other <+: c :: rest) :
    other.length ≤ (c :: rest.takeWhile Digit.isDigit).length ∨
      ∃ places longer beyond, fraction? (rest.dropWhile Digit.isDigit) = some (longer, beyond) ∧
        places.length ≤ longer.length ∧
          other = c :: (rest.takeWhile Digit.isDigit ++ '.' :: places) := by
  obtain ⟨more, rfl, hMore, hBegins⟩ := h.begins_prefix hPrefix
  cases hBegins with
  | word starts => rw [isDigit_eq_false starts] at hDigit; cases hDigit
  | digits _ goes => exact .inl (Nat.succ_le_succ (length_le_takeWhile goes hMore))
  | @decimal others places _ goes after split =>
      subst split
      obtain ⟨beyond, rfl⟩ := hMore
      have hPoint : Stops Digit.isDigit ('.' :: places ++ beyond) := stops_cons (by decide) _
      rw [List.append_assoc, takeWhile_run goes hPoint, dropWhile_run goes hPoint]
      obtain ⟨longer, left, hFraction, hLength⟩ :=
        fraction?_of_prefix after (List.prefix_append ('.' :: places) beyond)
      exact .inr ⟨places, longer, left, hFraction, hLength, rfl⟩
  | literal starts =>
      subst starts
      cases hDigit
  | mark starts =>
      rw [(startsMark_iff.mp starts).2.2.1] at hDigit
      cases hDigit

/-- A closed literal is the only token that begins with its quote. -/
theorem Spelled.literal_prefix {token : Terminal × Value} {other : List Char}
    (h : Spelled token other) {rest : List Char} (hPrefix : other <+: '"' :: rest) :
    ∃ body beyond, literalBody rest = some (body, beyond) ∧ other = '"' :: (body ++ ['"']) := by
  obtain ⟨more, rfl, hMore, hBegins⟩ := h.begins_prefix hPrefix
  cases hBegins with
  | word starts => cases starts
  | digits starts => cases starts
  | decimal starts => cases starts
  | @literal body _ legal closed =>
      subst closed
      obtain ⟨beyond, rfl⟩ := hMore
      refine ⟨body, beyond, ?_, rfl⟩
      rw [List.append_assoc, List.singleton_append]
      exact literalBody_of_isLiteralBody legal beyond
  | mark starts => exact absurd rfl (startsMark_iff.mp starts).2.2.2.1

/-- Where neither a word, nor a number, nor a literal begins, only a mark
can. -/
theorem Spelled.mark_prefix {token : Terminal × Value} {other : List Char}
    (h : Spelled token other) {c : Char} {rest : List Char} (hWord : isWordStart c = false)
    (hDigit : Digit.isDigit c = false) (hQuote : c ≠ '"') (hPrefix : other <+: c :: rest) :
    ∃ mark ∈ Terminal.marks, mark.1.toList = other := by
  obtain ⟨more, rfl, -, hBegins⟩ := h.begins_prefix hPrefix
  cases hBegins with
  | word starts => rw [hWord] at starts; cases starts
  | digits starts => rw [hDigit] at starts; cases starts
  | decimal starts => rw [hDigit] at starts; cases starts
  | literal starts => exact absurd starts hQuote
  | @mark mark _ listed spells => exact ⟨mark, listed, spells⟩

/-- The first mark in the list that a text goes on with is the longest. Of two
beginnings of one text, one begins the other, and a longer mark is listed
earlier. -/
theorem length_le_of_find? {text : List Char} {mark other : String × Terminal}
    (h : Terminal.marks.find? (fun mark => mark.1.toList.isPrefixOf text) = some mark)
    (hListed : other ∈ Terminal.marks) (hOther : other.1.toList <+: text) :
    other.1.toList.length ≤ mark.1.toList.length := by
  obtain ⟨hPrefix, before, after, hMarks, hEarlier⟩ := List.find?_eq_some_iff_append.mp h
  rw [List.isPrefixOf_iff_prefix] at hPrefix
  have hPairwise := marks_pairwise
  rw [hMarks, List.pairwise_append, List.pairwise_cons] at hPairwise
  rw [hMarks, List.mem_append, List.mem_cons] at hListed
  rcases hListed with hBefore | rfl | hAfter
  · have hNot := hEarlier other hBefore
    rw [Bool.not_eq_true', Bool.eq_false_iff, ne_eq, List.isPrefixOf_iff_prefix] at hNot
    exact absurd hOther hNot
  · exact Nat.le_refl _
  · rcases List.prefix_or_prefix_of_prefix hPrefix hOther with hShort | hLong
    · exact absurd hShort (hPairwise.2.1.1 other hAfter).1
    · exact hLong.length_le

/-! ### One piece -/

/-- What the scanner cuts off a text, and what is left. -/
inductive Cut : List Char → Piece → List Char → Prop where
  | blank {c : Char} {rest : List Char} (skips : isBlank c = true) : Cut (c :: rest) (.blank c) rest
  | comment {inside rest : List Char} (line : '\n' ∉ inside) (ends : Stops (· != '\n') rest) :
      Cut ('/' :: '/' :: inside ++ rest) (.comment ('/' :: '/' :: inside)) rest
  | token {kind : Terminal} {value : Value} {lexeme rest : List Char}
      (spelled : Spelled (kind, value) lexeme)
      (longest : Longest lexeme (lexeme ++ rest)) (uncommented : ¬ ['/', '/'] <+: lexeme ++ rest) :
      Cut (lexeme ++ rest) (.token kind value lexeme) rest
  | stray {c : Char} {rest : List Char} (solid : isBlank c = false)
      (unspelled : Unspelled (c :: rest)) :
      Cut (c :: rest) (.stray c) rest
  | overlong {digits rest : List Char} (run : IsDigits digits) (long : digitLimit < digits.length) :
      Cut (digits ++ rest) (.overlong digits) rest

section cutting

variable {c : Char} {rest : List Char}

/-- At a digit the longest number is cut off, unless it is overlong. A point
belongs to it only if a digit follows, and then the number with its places is
the longest. -/
theorem cut_number (hDigit : Digit.isDigit c = true) (hUncommented : ¬ ['/', '/'] <+: c :: rest) :
    Cut (c :: rest) (numberPiece c rest).1 (numberPiece c rest).2 := by
  have hRun : IsDigits (c :: rest.takeWhile Digit.isDigit) :=
    ⟨List.cons_ne_nil _ _, List.forall_mem_cons.mpr
      ⟨hDigit, List.all_eq_true.mp List.all_takeWhile⟩⟩
  have hText : c :: rest = c :: rest.takeWhile Digit.isDigit ++ rest.dropWhile Digit.isDigit := by
    rw [List.cons_append, List.takeWhile_append_dropWhile]
  cases hFraction : fraction? (rest.dropWhile Digit.isDigit) with
  | some found =>
      obtain ⟨places, beyond⟩ := found
      obtain ⟨hAfter, hPlaces⟩ := fraction?_some hFraction
      have hLongest : Longest (c :: rest.takeWhile Digit.isDigit ++ '.' :: places) (c :: rest) := by
        intro token other hSpelled hPrefix
        rcases hSpelled.number_prefix hDigit hPrefix with hShort |
          ⟨shorter, longer, left, hSame, hLength, rfl⟩
        · rw [List.length_append]
          exact Nat.le_trans hShort (Nat.le_add_right _ _)
        · rw [hFraction] at hSame
          cases hSame
          simp only [List.length_cons, List.length_append, List.cons_append]
          omega
      have hWhole : c :: rest = c :: rest.takeWhile Digit.isDigit ++ '.' :: places ++ beyond := by
        rw [hText, hAfter]
        simp
      have hPiece : numberPiece c rest = (.token .decimal (.float (Double.ofDecimal false
          (Digit.number (c :: rest.takeWhile Digit.isDigit ++ places)) (-(places.length : Int))))
          (c :: rest.takeWhile Digit.isDigit ++ '.' :: places), beyond) := by
        rw [numberPiece, hFraction]
      rw [hPiece]
      rw [hWhole] at hLongest hUncommented ⊢
      exact .token (.decimal hRun hPlaces) hLongest hUncommented
  | none =>
      by_cases hLong : digitLimit < (c :: rest.takeWhile Digit.isDigit).length
      · have hPiece : numberPiece c rest =
            (.overlong (c :: rest.takeWhile Digit.isDigit), rest.dropWhile Digit.isDigit) := by
          simp only [numberPiece, hFraction, if_pos hLong]
        rw [hPiece, hText]
        exact .overlong hRun hLong
      · have hPiece : numberPiece c rest =
            (.token .integer (.int (Digit.number (c :: rest.takeWhile Digit.isDigit)))
            (c :: rest.takeWhile Digit.isDigit), rest.dropWhile Digit.isDigit) := by
          simp only [numberPiece, hFraction, if_neg hLong]
        have hLongest : Longest (c :: rest.takeWhile Digit.isDigit) (c :: rest) := by
          intro token other hSpelled hPrefix
          rcases hSpelled.number_prefix hDigit hPrefix with hShort | ⟨_, _, _, hSome, _⟩
          · exact hShort
          · rw [hFraction] at hSome
            cases hSome
        rw [hPiece]
        rw [hText] at hLongest hUncommented ⊢
        exact .token (.integer hRun (Nat.not_lt.mp hLong)) hLongest hUncommented

/-- At a letter the longest word is cut off, which is reserved or a name. -/
theorem cut_word (hStart : isWordStart c = true) (hUncommented : ¬ ['/', '/'] <+: c :: rest) :
    Cut (c :: rest) (wordToken (c :: rest.takeWhile isWordPart)) (rest.dropWhile isWordPart) := by
  have hWord : ∀ c ∈ rest.takeWhile isWordPart, isWordPart c = true :=
    List.all_eq_true.mp List.all_takeWhile
  obtain ⟨kind, value, hToken, hSpelled⟩ := spelled_wordToken hStart hWord
  have hLongest := longest_word hStart rest
  have hText : c :: rest = c :: rest.takeWhile isWordPart ++ rest.dropWhile isWordPart := by
    rw [List.cons_append, List.takeWhile_append_dropWhile]
  rw [hToken]
  rw [hText] at hLongest hUncommented ⊢
  exact .token hSpelled hLongest hUncommented

/-- A literal ends with the quote that closes it. -/
theorem eq_of_literalBody {text body after : List Char}
    (h : literalBody text = some (body, after)) :
    text = body ++ '"' :: after := by
  fun_induction literalBody text generalizing body after with
  | case1 => cases h
  | case2 rest =>
      cases h
      rfl
  | case3 => cases h
  | case4 c rest _ ih =>
      obtain ⟨⟨inner, left⟩, hInner, hEq⟩ := Option.map_eq_some_iff.mp h
      cases hEq
      rw [ih hInner]
      rfl
  | case5 => cases h
  | case6 => cases h
  | case7 c rest _ _ _ _ ih =>
      obtain ⟨⟨inner, left⟩, hInner, hEq⟩ := Option.map_eq_some_iff.mp h
      cases hEq
      rw [ih hInner]
      rfl

/-- At a quote that is closed the literal is cut off. It is the only token that
begins with a quote. -/
theorem cut_literal (hUncommented : ¬ ['/', '/'] <+: '"' :: rest) {body after : List Char}
    (hBody : literalBody rest = some (body, after)) :
    Cut ('"' :: rest) (.token .text (.text (String.ofList body)) ('"' :: body ++ ['"'])) after := by
  have hSpelled : Spelled (.text, .text (String.ofList body)) ('"' :: body ++ ['"']) := by
    have hLegal : Run.IsLiteralBody (String.ofList body).toList := by
      rw [String.toList_ofList]
      exact isLiteralBody_of_literalBody hBody
    have hLiteral := Spelled.literal hLegal
    rwa [String.toList_ofList] at hLiteral
  have hLongest : Longest ('"' :: body ++ ['"']) ('"' :: rest) := by
    intro token other hOther hPrefix
    obtain ⟨inner, beyond, hInner, rfl⟩ := hOther.literal_prefix hPrefix
    rw [hBody] at hInner
    cases hInner
    exact Nat.le_refl _
  have hText : '"' :: rest = '"' :: body ++ ['"'] ++ after := by
    rw [eq_of_literalBody hBody]
    simp
  rw [hText] at hLongest hUncommented ⊢
  exact .token hSpelled hLongest hUncommented

/-- At any other character the longest mark is cut off, or the character alone
if no mark begins with it. The marks are listed with longer ones first, so the
first that fits is the longest. -/
theorem cut_mark (hBlank : isBlank c = false) (hUncommented : ¬ ['/', '/'] <+: c :: rest)
    (hWord : isWordStart c = false) (hDigit : Digit.isDigit c = false) (hQuote : c ≠ '"') :
    Cut (c :: rest) (markPiece c rest).1 (markPiece c rest).2 := by
  cases hFind : Terminal.marks.find? (fun mark => mark.1.toList.isPrefixOf (c :: rest)) with
  | none =>
      have hPiece : markPiece c rest = (.stray c, rest) := by rw [markPiece, hFind]
      rw [hPiece]
      refine .stray hBlank fun token other hSpelled hPrefix => ?_
      obtain ⟨mark, hListed, rfl⟩ := hSpelled.mark_prefix hWord hDigit hQuote hPrefix
      exact List.find?_eq_none.mp hFind mark hListed (List.isPrefixOf_iff_prefix.mpr hPrefix)
  | some mark =>
      obtain ⟨spelling, kind⟩ := mark
      have hPiece : markPiece c rest =
          (.token kind (.text spelling) spelling.toList,
            rest.drop (spelling.toList.length - 1)) := by
        rw [markPiece, hFind]
      have hListed : (spelling, kind) ∈ Terminal.marks := List.mem_of_find?_eq_some hFind
      have hPrefix : spelling.toList <+: c :: rest :=
        List.isPrefixOf_iff_prefix.mp (List.find?_eq_some_iff_append.mp hFind).1
      have hLongest : Longest spelling.toList (c :: rest) := by
        intro token other hSpelled hOther
        obtain ⟨mark, hMark, rfl⟩ := hSpelled.mark_prefix hWord hDigit hQuote hOther
        exact length_le_of_find? hFind hMark hOther
      have hText : c :: rest = spelling.toList ++ rest.drop (spelling.toList.length - 1) := by
        obtain ⟨first, more, hSpelling, -⟩ := (Spelled.mark hListed).begins
        obtain ⟨after, hAfter⟩ := hPrefix
        rw [hSpelling, List.cons_append] at hAfter ⊢
        cases hAfter
        simp
      rw [hPiece]
      rw [hText] at hLongest hUncommented
      have hCut := Cut.token (.mark hListed) hLongest hUncommented
      rwa [← hText] at hCut

/-- At two slashes the rest of the line is cut off. -/
theorem cut_comment (hSecond : rest.head? = some '/') :
    Cut ('/' :: rest) (.comment ('/' :: rest.takeWhile (· != '\n')))
      (rest.dropWhile (· != '\n')) := by
  obtain ⟨more, rfl⟩ := List.head?_eq_some_iff.mp hSecond
  have hTake : ('/' :: more).takeWhile (· != '\n') = '/' :: more.takeWhile (· != '\n') := rfl
  have hDrop : ('/' :: more).dropWhile (· != '\n') = more.dropWhile (· != '\n') := rfl
  have hLine : '\n' ∉ more.takeWhile (· != '\n') := by
    intro hIn
    have hNe := List.all_eq_true.mp List.all_takeWhile _ hIn
    cases hNe
  have hCut := Cut.comment hLine (stops_dropWhile more)
  rw [List.cons_append, List.cons_append, List.takeWhile_append_dropWhile] at hCut
  rwa [hTake, hDrop]

/-- Every piece is cut off as it should be: a blank, a comment, the longest
token, or a character with which no token begins. The cases are the scanner's
own. -/
theorem cut_piece (c : Char) (rest : List Char) :
    Cut (c :: rest) (piece c rest).1 (piece c rest).2 := by
  unfold piece
  split
  · exact .blank ‹_›
  rename_i hBlank
  split
  · rename_i hComment
    rw [Bool.and_eq_true, beq_iff_eq, beq_iff_eq] at hComment
    obtain ⟨rfl, hSecond⟩ := hComment
    exact cut_comment hSecond
  rename_i hNone
  have hUncommented : ¬ ['/', '/'] <+: c :: rest := by
    rintro ⟨after, hText⟩
    cases hText
    exact hNone rfl
  split
  · exact cut_word ‹_› hUncommented
  rename_i hWord
  split
  · exact cut_number ‹_› hUncommented
  rename_i hDigit
  rw [Bool.not_eq_true] at hBlank hWord hDigit
  split
  · rename_i hQuote
    cases beq_iff_eq.mp hQuote
    cases hBody : literalBody rest with
    | some found => exact cut_literal hUncommented hBody
    | none =>
        refine .stray hBlank fun token other hSpelled hPrefix => ?_
        obtain ⟨body, beyond, hSome, -⟩ := hSpelled.literal_prefix hPrefix
        rw [hBody] at hSome
        cases hSome
  · rename_i hQuote
    exact cut_mark hBlank hUncommented hWord hDigit fun hSame => hQuote (beq_iff_eq.mpr hSame)

/-- A piece covers what it is cut off from. -/
theorem Cut.text_eq {text left : List Char} {p : Piece} (h : Cut text p left) :
    text = p.text ++ left := by
  cases h <;> rfl

end cutting

/-! ### Whole texts -/

/-- A text, with so many characters before it, is made of these tokens and
these stray characters, each at its place, and of blanks and comments. A token
is the longest that begins at its place, and no token begins with a stray
character. -/
inductive Covers : Nat → List Char → List Token → List (Char × Cursor) → Prop where
  | nil {offset : Nat} : Covers offset [] [] []
  | blank {offset : Nat} {c : Char} {rest : List Char} {tokens : List Token}
      {strays : List (Char × Cursor)}
      (skips : isBlank c = true) (others : Covers (offset + 1) rest tokens strays) :
      Covers offset (c :: rest) tokens strays
  | comment {offset : Nat} {inside rest : List Char} {tokens : List Token}
      {strays : List (Char × Cursor)}
      (line : '\n' ∉ inside) (ends : Stops (· != '\n') rest)
      (others : Covers (offset + ('/' :: '/' :: inside).length) rest tokens strays) :
      Covers offset ('/' :: '/' :: inside ++ rest) tokens strays
  | token {offset : Nat} {t : Token} {lexeme rest : List Char} {tokens : List Token}
      {strays : List (Char × Cursor)}
      (spelled : Spelled t.content lexeme) (placed : t.place.offset = offset)
      (longest : Longest lexeme (lexeme ++ rest)) (uncommented : ¬ ['/', '/'] <+: lexeme ++ rest)
      (others : Covers (offset + lexeme.length) rest tokens strays) :
      Covers offset (lexeme ++ rest) (t :: tokens) strays
  | stray {offset : Nat} {c : Char} {place : Cursor} {rest : List Char} {tokens : List Token}
      {strays : List (Char × Cursor)} (solid : isBlank c = false)
      (unspelled : Unspelled (c :: rest))
      (placed : place.offset = offset) (others : Covers (offset + 1) rest tokens strays) :
      Covers offset (c :: rest) tokens ((c, place) :: strays)

/-- No token stands before the text it was cut from, and each one stands before
the next. -/
theorem Covers.increasing {offset : Nat} {text : List Char} {tokens : List Token}
    {strays : List (Char × Cursor)} (h : Covers offset text tokens strays) :
    (∀ t ∈ tokens, offset ≤ t.place.offset) ∧ tokens.Pairwise fun t u =>
      t.place.offset < u.place.offset := by
  induction h with
  | nil => exact ⟨List.forall_mem_nil _, .nil⟩
  | blank _ _ ih => exact ⟨fun t ht => Nat.le_of_succ_le (ih.1 t ht), ih.2⟩
  | comment _ _ _ ih =>
      exact ⟨fun t ht => Nat.le_trans (Nat.le_add_right _ _) (ih.1 t ht), ih.2⟩
  | @token offset t lexeme _ tokens _ spelled placed _ _ _ ih =>
      have hLater : ∀ u ∈ tokens, t.place.offset < u.place.offset := by
        intro u hu
        obtain ⟨first, more, rfl, -⟩ := spelled.begins
        have hOffset := ih.1 u hu
        rw [List.length_cons] at hOffset
        omega
      refine ⟨List.forall_mem_cons.mpr ⟨Nat.le_of_eq placed.symm, fun u hu => ?_⟩,
        .cons hLater ih.2⟩
      exact Nat.le_trans (Nat.le_add_right _ _) (ih.1 u hu)
  | stray _ _ _ _ ih => exact ⟨fun t ht => Nat.le_of_succ_le (ih.1 t ht), ih.2⟩

/-- No run of digits in the text is longer than a number may be. -/
def HasShortRuns (text : List Char) : Prop :=
  ∀ run, run <:+: text → (∀ c ∈ run, Digit.isDigit c = true) → run.length ≤ digitLimit

theorem HasShortRuns.of_append {before after : List Char} (h : HasShortRuns (before ++ after)) :
    HasShortRuns after :=
  fun run hRun => h run (hRun.trans (List.suffix_append before after).isInfix)

/-- What is printed about stray characters. -/
def notices (strays : List (Char × Cursor)) : String :=
  String.join (strays.map fun s => strayNotice s.1 countedLine s.2)

/-- What scanning the pieces of a text comes to, wherever the text stands. -/
structure CoveredBy (here : Cursor) (text : List Char) (s : Scan) : Prop where
  fault_eq : s.fault = none
  covered : ∃ strays, Covers here.offset text s.tokens strays ∧ s.output = notices strays

/-- One more piece in front of a covered text. -/
theorem CoveredBy.cut {text left : List Char} {p : Piece} (hCut : Cut text p left)
    (hRuns : HasShortRuns text) {here : Cursor} {ps : List Piece}
    (h : CoveredBy (here.after p.text) left (collect (locate (here.after p.text) ps))) :
    CoveredBy here text (collect (locate here (p :: ps))) := by
  obtain ⟨hFault, strays, hCovers, hOutput⟩ := h
  rw [Cursor.offset_after] at hCovers
  cases hCut with
  | blank skips => exact ⟨hFault, strays, .blank skips hCovers, hOutput⟩
  | comment line ends => exact ⟨hFault, strays, .comment line ends hCovers, hOutput⟩
  | @token kind value lexeme rest spelled longest uncommented =>
      exact ⟨hFault, strays, .token spelled rfl longest uncommented hCovers, hOutput⟩
  | @stray c rest solid unspelled =>
      refine ⟨hFault, (c, here) :: strays, .stray solid unspelled rfl hCovers, ?_⟩
      have hAll : notices ((c, here) :: strays) = strayNotice c countedLine here ++
          notices strays := by
        simp [notices]
      rw [hAll, ← hOutput]
      rfl
  | @overlong digits _ run long =>
      have hShort := hRuns digits (List.prefix_append digits left).isInfix run.all
      exact absurd long (Nat.not_lt.mpr hShort)

/-- The pieces of a text cover it, from wherever it is counted. The recursion
is the scanner's, one piece at a time. -/
theorem covered_pieces (text : List Char) (hRuns : HasShortRuns text) (here : Cursor) :
    CoveredBy here text (collect (locate here (pieces text))) := by
  fun_induction pieces text generalizing here with
  | case1 => exact ⟨rfl, [], .nil, rfl⟩
  | case2 c rest ih =>
      have hCut := cut_piece c rest
      have hLeft : HasShortRuns (piece c rest).2 := by
        rw [hCut.text_eq] at hRuns
        exact hRuns.of_append
      exact .cut hCut hRuns (ih hLeft _)

/-- A text without overlong runs of digits is scanned without a fault. It is
made, from its first character to its last, of the lexemes of its tokens, each
at the offset of its token, and of blanks, comments and single characters that
begin no token, each of which is reported once, in order. The offsets of the
tokens increase. -/
theorem scan_covers (source : String) (hRuns : HasShortRuns source.toList) :
    (scan source).fault = none ∧
      (∃ strays, Covers 0 source.toList (scan source).tokens strays ∧
        (scan source).output = notices strays) ∧
      (scan source).tokens.Pairwise fun t u => t.place.offset < u.place.offset := by
  obtain ⟨hFault, strays, hCovers, hOutput⟩ := covered_pieces source.toList hRuns Cursor.start
  exact ⟨hFault, ⟨strays, hCovers, hOutput⟩, hCovers.increasing.2⟩

/-- An assignment of a digit of another script, a lone backslash, a quote that
is never closed, and a comment. -/
def strayingText : String := "x=\u0663 \\ \"a // b"

theorem hasShortRuns_of_length {text : List Char} (h : text.length ≤ digitLimit) :
    HasShortRuns text :=
  fun _ hRun _ => Nat.le_trans hRun.length_le h

/-- The text is covered by four tokens, a comment, blanks and the characters
that are reported. -/
theorem scan_covers_strayingText :
    HasShortRuns strayingText.toList ∧ (scan strayingText).fault = none ∧
      ((scan strayingText).tokens.map fun t => (t.kind, t.place.offset)) =
        [(.identifier, 0), (.equals, 1), (.integer, 2), (.identifier, 7)] ∧
      ∃ strays, Covers 0 strayingText.toList (scan strayingText).tokens strays ∧
        (scan strayingText).output = notices strays := by
  have hRuns : HasShortRuns strayingText.toList := hasShortRuns_of_length (by decide)
  obtain ⟨hFault, hCovers, -⟩ := scan_covers strayingText hRuns
  exact ⟨hRuns, hFault, by decide +kernel, hCovers⟩

end Lexer

end PageScript
