import PageScript.Proofs.Run.HandOver
import PageScript.Proofs.Text.Span
import PageScript.Proofs.Token.Spelling

/-! Written tokens are cut back out of their text. A word and a number must not
run on into what follows them, and a mark must not become a longer one or a
comment; apart from that blanks between tokens are free. -/
namespace PageScript

namespace Digit

theorem value?_of_isDigit {c : Char} (h : c.isDigit = true) :
    value? c = some (c.toNat - '0'.toNat) := by
  have hRange := Run.toNat_of_isDigit h
  have hZero : '0'.toNat = 0x30 := by decide
  have hFind : zeros.find? (fun start => decide (start ≤ c.toNat) &&
      decide (c.toNat < start + 10)) = some 0x30 := by
    rw [zeros, List.find?_cons_of_pos]
    simp only [Bool.and_eq_true, decide_eq_true_eq]
    omega
  rw [value?, hFind, Option.map_some, hZero]

theorem isDigit_of_isDigit {c : Char} (h : c.isDigit = true) : isDigit c = true := by
  rw [isDigit, value?_of_isDigit h]
  rfl

theorem isDigit_of_mem_toString {n : Nat} : ∀ c ∈ (toString n).toList, c.isDigit = true := by
  intro c hc
  rw [Nat.toString_eq_repr, Nat.toList_repr] at hc
  exact Nat.isDigit_of_mem_toDigits (by decide) (by decide) hc

/-- A number is read from its own digits. -/
theorem number_toString (n : Nat) : number (toString n).toList = n := by
  have hFold (digits : List Char) (start : Nat) (h : ∀ c ∈ digits, c.isDigit = true) :
      digits.foldl (fun n c => 10 * n + (value? c).getD 0) start =
        Nat.ofDigitChars 10 digits start := by
    induction digits generalizing start with
    | nil => rfl
    | cons c rest ih =>
        rw [List.foldl_cons, ih _ fun d hd => h d (.tail _ hd), value?_of_isDigit (h c (.head _)),
          Nat.ofDigitChars_cons]
        rfl
  rw [number, hFold _ 0 isDigit_of_mem_toString, Nat.toString_eq_repr, Nat.toList_repr,
    Nat.ofDigitChars_ten_toDigits]

end Digit

/-- What a token is, wherever it stands. -/
def Token.content (t : Token) : Terminal × Value := (t.kind, t.value)

namespace Lexer

/-! ### Literals -/

/-- The scanner reads a legal body up to the quote behind it. -/
theorem literalBody_of_isLiteralBody {body : List Char} (h : Run.IsLiteralBody body)
    (rest : List Char) :
    literalBody (body ++ '"' :: rest) = some (body, rest) := by
  induction h with
  | nil => rfl
  | @plain c body hQuote hBackslash hLine _ ih =>
      rw [List.cons_append, literalBody, if_neg hLine, ih]
      · rfl
      · exact hQuote
      · intro _ _ hSame
        exact absurd hSame hBackslash
      · intro hSame
        exact absurd hSame hBackslash
  | escaped hLine _ ih =>
      rw [List.cons_append, List.cons_append, literalBody, if_neg hLine, ih]
      rfl

/-- The body of a literal that the scanner has read is legal. The recursion is
that of the scanner. -/
theorem isLiteralBody_of_literalBody {s body after : List Char}
    (h : literalBody s = some (body, after)) :
    Run.IsLiteralBody body := by
  fun_induction literalBody s generalizing body after with
  | case1 => cases h
  | case2 rest =>
      cases h
      exact .nil
  | case3 => cases h
  | case4 c rest hLine ih =>
      obtain ⟨⟨inner, left⟩, hInner, hEq⟩ := Option.map_eq_some_iff.mp h
      cases hEq
      exact .escaped hLine (ih hInner)
  | case5 => cases h
  | case6 => cases h
  | case7 c rest hQuote hGuard hAlone hLine ih =>
      obtain ⟨⟨inner, left⟩, hInner, hEq⟩ := Option.map_eq_some_iff.mp h
      cases hEq
      have hBackslash : c ≠ '\\' := by
        intro hSame
        cases rest with
        | nil => exact hAlone hSame rfl
        | cons d more => exact hGuard d more hSame rfl
      exact .plain hQuote hBackslash hLine (ih hInner)

theorem isLiteral_iff {s : String} : IsLiteral s ↔ Run.IsLiteralBody s.toList := by
  constructor
  · rintro ⟨rest, after, hBody⟩
    exact isLiteralBody_of_literalBody hBody
  · intro h
    exact ⟨_, [], literalBody_of_isLiteralBody h []⟩

/-! ### Written tokens -/

/-- The text of a truth value. -/
def truthWord (b : Bool) : String := if b then "true" else "false"

/-- A run of at least one digit, of whatever scripts. -/
structure IsDigits (digits : List Char) : Prop where
  nonempty : digits ≠ []
  all : ∀ c ∈ digits, Digit.isDigit c = true

/-- The characters that a token of some kind, with some value, can be written
as. -/
inductive Spelled : Terminal × Value → List Char → Prop where
  | mark {spelling : String} {kind : Terminal} (listed : (spelling, kind) ∈ Terminal.marks) :
      Spelled (kind, .text spelling) spelling.toList
  | name {word : String} (named : IsName word) : Spelled (.identifier, .text word) word.toList
  | reserved {word : String} {kind : Terminal} (listed : (word, kind) ∈ Terminal.reserved)
      (plain : kind ≠ .boolean) :
      Spelled (kind, .text word) word.toList
  | truth (b : Bool) : Spelled (.boolean, .bool b) (truthWord b).toList
  | integer {digits : List Char} (run : IsDigits digits) (short : digits.length ≤ digitLimit) :
      Spelled (.integer, .int (Digit.number digits)) digits
  | decimal {whole places : List Char} (before : IsDigits whole) (after : IsDigits places) :
      Spelled (.decimal, .float (Double.ofDecimal false (Digit.number (whole ++ places))
        (-(places.length : Int))))
        (whole ++ '.' :: places)
  | literal {body : String} (legal : Run.IsLiteralBody body.toList) :
      Spelled (.text, .text body) ('"' :: (body.toList ++ ['"']))

/-- What makes another mark, or a comment, of a mark that it stands behind. -/
def extendsMark (c : Char) : Bool := c == '=' || c == '/'

/-- What follows does not belong to a token of this kind. A token that is
neither a number nor a literal is a mark or a word. -/
def Apart : Terminal → List Char → Prop
  | .integer, rest => Stops Digit.isDigit rest ∧ fraction? rest = none
  | .decimal, rest => Stops Digit.isDigit rest
  | .text, _ => True
  | kind, rest =>
    if (Terminal.marks.map Prod.snd).contains kind then Stops extendsMark rest else Stops
    isWordPart rest

/-- Tokens written in order, with blanks before, between and after them. -/
inductive Laid : List (Terminal × Value) → List Char → Prop where
  | nil : Laid [] []
  | blank {tokens : List (Terminal × Value)} {c : Char} {source : List Char}
      (hBlank : isBlank c = true)
      (rest : Laid tokens source) : Laid tokens (c :: source)
  | cons {token : Terminal × Value} {tokens : List (Terminal × Value)}
      {spelling source : List Char}
      (first : Spelled token spelling) (apart : Apart token.1 source) (rest : Laid tokens source) :
      Laid (token :: tokens) (spelling ++ source)

/-! ### Words and numbers -/

theorem beq_eq_false_of_class {p : Char → Bool} {c d : Char} (hc : p c = true)
    (hd : p d = false) :
    (c == d) = false := by
  rw [beq_eq_false_iff_ne]
  rintro rfl
  rw [hc] at hd
  cases hd

theorem isBlank_eq_false_of_class {p : Char → Bool} {c : Char} (hc : p c = true)
    (h : p ' ' = false ∧ p '\t' = false ∧ p '\r' = false ∧ p '\n' = false) :
    isBlank c = false := by
  rw [isBlank, beq_eq_false_of_class hc h.1, beq_eq_false_of_class hc h.2.1,
    beq_eq_false_of_class hc h.2.2.1, beq_eq_false_of_class hc h.2.2.2]
  rfl

/-- A word is cut up to where its last letter, digit or underscore stands. -/
theorem piece_of_word {first : Char} {more rest : List Char} (hFirst : isWordStart first = true)
    (hMore : ∀ c ∈ more, isWordPart c = true) (hRest : Stops isWordPart rest) :
    piece first (more ++ rest) = (wordToken (first :: more), rest) := by
  have hBlank : isBlank first = false := isBlank_eq_false_of_class hFirst (by decide)
  have hSlash : (first == '/') = false := beq_eq_false_of_class hFirst (by decide)
  rw [piece, hBlank, hSlash, hFirst, takeWhile_run hMore hRest, dropWhile_run hMore hRest]
  rfl

theorem wordToken_of_isName {word : String} (h : IsName word) :
    wordToken word.toList = .token .identifier (.text word) word.toList := by
  rw [wordToken, String.ofList_toList, h.unreserved]

/-- The reserved words are spelled like names. -/
theorem reserved_spelled {word : String} {kind : Terminal}
    (h : (word, kind) ∈ Terminal.reserved) :
    ∃ first rest, word.toList = first :: rest ∧ isWordStart first = true ∧ ∀ c ∈ rest,
      isWordPart c = true := by
  have hAll : Terminal.reserved.all (fun entry => entry.1.toList.head?.any isWordStart &&
      entry.1.toList.tail.all isWordPart) = true := by decide
  have hEntry := List.all_eq_true.mp hAll _ h
  rw [Bool.and_eq_true, Option.any_eq_true, List.all_eq_true] at hEntry
  obtain ⟨⟨first, hHead, hFirst⟩, hRest⟩ := hEntry
  obtain ⟨rest, hWord⟩ := List.head?_eq_some_iff.mp hHead
  rw [hWord] at hRest
  exact ⟨first, rest, hWord, hFirst, hRest⟩

/-- A reserved word is read as its own kind of token, the two truth values
apart. No word is listed twice. -/
theorem wordToken_of_reserved {word : String} {kind : Terminal}
    (h : (word, kind) ∈ Terminal.reserved) (hPlain : kind ≠ .boolean) :
    wordToken word.toList = .token kind (.text word) word.toList := by
  have hAll : ∀ entry ∈ Terminal.reserved, Terminal.reserved.lookup entry.1 = some entry.2 := by
    decide
  rw [wordToken, String.ofList_toList, hAll _ h]
  cases kind with
  | boolean => exact absurd rfl hPlain
  | _ => rfl

/-- No digit of any script begins a word. -/
theorem isDigit_eq_false {c : Char} (h : isWordStart c = true) : Digit.isDigit c = false := by
  have hZeros : ∀ start ∈ Digit.zeros, start = 0x30 ∨ 0x660 ≤ start := by decide
  have hRange : 0x41 ≤ c.toNat ∧ c.toNat ≤ 0x7a := by
    rw [isWordStart, Bool.or_eq_true, beq_iff_eq] at h
    rcases h with hAlpha | rfl
    · have hLetter := Run.toNat_of_isAlpha hAlpha
      omega
    · decide
  rw [Digit.isDigit, Digit.value?, Option.isSome_map, Bool.eq_false_iff, ne_eq, List.find?_isSome]
  rintro ⟨start, hStart, hHolds⟩
  rw [Bool.and_eq_true, decide_eq_true_eq, decide_eq_true_eq] at hHolds
  rcases hZeros start hStart with rfl | hLarge <;> omega

theorem exists_toString_eq_cons (n : Nat) :
    ∃ first more, (toString n).toList = first :: more := by
  rw [Nat.toString_eq_repr, Nat.toList_repr]
  exact List.exists_cons_of_ne_nil Nat.toDigits_ne_nil

/-- A number is spelled by its own digits. -/
theorem spelled_toString {n : Nat} (hShort : (toString n).length ≤ digitLimit) :
    Spelled (.integer, .int n) (toString n).toList := by
  obtain ⟨first, more, hDigits⟩ := exists_toString_eq_cons n
  have hRun : IsDigits (toString n).toList :=
    ⟨by rw [hDigits]; exact List.cons_ne_nil _ _, fun c hc =>
      Digit.isDigit_of_isDigit (Digit.isDigit_of_mem_toString c hc)⟩
  have hSpelled := Spelled.integer hRun (by rwa [String.length_toList])
  rwa [Digit.number_toString] at hSpelled

/-- What begins with a digit is cut as a number. -/
theorem piece_of_isDigit {first : Char} (h : Digit.isDigit first = true) (rest : List Char) :
    piece first rest = numberPiece first rest := by
  have hBlank : isBlank first = false := isBlank_eq_false_of_class h (by decide)
  have hSlash : (first == '/') = false := beq_eq_false_of_class h (by decide)
  have hWord : isWordStart first = false := by
    rw [Bool.eq_false_iff]
    intro hStart
    rw [isDigit_eq_false hStart] at h
    cases h
  rw [piece, hBlank, hSlash, hWord, h]
  rfl

/-- A whole number is cut up to its last digit. -/
theorem piece_of_digits {first : Char} {more rest : List Char} (hRun : IsDigits (first :: more))
    (hShort : (first :: more).length ≤ digitLimit) (hRest : Stops Digit.isDigit rest)
    (hFraction : fraction? rest = none) :
    piece first (more ++ rest) = (.token .integer (.int (Digit.number (first :: more)))
      (first :: more), rest) := by
  obtain ⟨hFirst, hMore⟩ := List.forall_mem_cons.mp hRun.all
  rw [piece_of_isDigit hFirst]
  simp only [numberPiece, takeWhile_run hMore hRest, dropWhile_run hMore hRest, hFraction,
    if_neg (Nat.not_lt.mpr hShort)]

/-- A decimal is cut up to the last digit behind its point. -/
theorem piece_of_decimal {first : Char} {more places rest : List Char}
    (hWhole : IsDigits (first :: more)) (hPlaces : IsDigits places)
    (hRest : Stops Digit.isDigit rest) :
    piece first (more ++ '.' :: places ++ rest) =
      (.token .decimal (.float (Double.ofDecimal false (Digit.number (first :: more ++ places))
        (-(places.length : Int)))) (first :: more ++ '.' :: places), rest) := by
  obtain ⟨hFirst, hMore⟩ := List.forall_mem_cons.mp hWhole.all
  obtain ⟨place, others, rfl⟩ := List.exists_cons_of_ne_nil hPlaces.nonempty
  obtain ⟨hPlace, hOthers⟩ := List.forall_mem_cons.mp hPlaces.all
  have hPoint : Stops Digit.isDigit ('.' :: (place :: others ++ rest)) := stops_cons (by decide) _
  have hFraction : fraction? ('.' :: (place :: others ++ rest)) = some (place :: others, rest) := by
    rw [List.cons_append, fraction?, if_pos hPlace, takeWhile_run hOthers hRest,
      dropWhile_run hOthers hRest]
  rw [piece_of_isDigit hFirst, List.append_assoc, List.cons_append]
  simp only [numberPiece, takeWhile_run hMore hPoint, dropWhile_run hMore hPoint, hFraction]

/-! ### Marks -/

/-- A mark does not begin any mark that is tried after it, and a mark that it
begins and that is tried before it goes on with an equals sign. -/
theorem marks_pairwise : Terminal.marks.Pairwise fun earlier later =>
    ¬ earlier.1.toList <+: later.1.toList ∧
      (later.1.toList <+: earlier.1.toList → later.1.toList ++ ['='] <+: earlier.1.toList) := by
  decide

/-- What a mark begins with begins no other token, and a mark of several
characters does not begin with a slash. -/
def startsMark (spelling : List Char) (c : Char) : Bool :=
  !isBlank c && !isWordStart c && !Digit.isDigit c && c != '"' && (c != '/' || spelling.length == 1)

theorem marks_start : ∀ mark ∈ Terminal.marks,
    mark.1.toList.head?.any (startsMark mark.1.toList) = true := by
  decide

/-- A mark is the first in the list that the text goes on with. Of two
beginnings of one text, one begins the other. -/
theorem find?_mark {spelling : String} {kind : Terminal} (h : (spelling, kind) ∈ Terminal.marks)
    {rest : List Char} (hRest : Stops extendsMark rest) :
    Terminal.marks.find? (fun mark => mark.1.toList.isPrefixOf (spelling.toList ++ rest)) =
      some (spelling, kind) := by
  obtain ⟨before, after, hMarks⟩ := List.append_of_mem h
  have hPairwise := marks_pairwise
  rw [hMarks, List.pairwise_append] at hPairwise
  rw [List.find?_eq_some_iff_append]
  refine ⟨List.isPrefixOf_iff_prefix.mpr (List.prefix_append _ _), before, after, hMarks, ?_⟩
  intro earlier hEarlier
  obtain ⟨hNot, hLonger⟩ := hPairwise.2.2 earlier hEarlier _ (.head _)
  rw [Bool.not_eq_true', Bool.eq_false_iff, ne_eq, List.isPrefixOf_iff_prefix]
  intro hBegins
  rcases List.prefix_or_prefix_of_prefix hBegins
    (List.prefix_append spelling.toList rest) with hShort | hLong
  · exact hNot hShort
  · have hEquals := (hLonger hLong).trans hBegins
    rw [List.prefix_append_right_inj] at hEquals
    obtain ⟨more, rfl⟩ := hEquals
    cases hRest '=' rfl

/-- A mark that no character prolongs is cut off as it is. -/
theorem piece_of_mark {spelling : String} {kind : Terminal}
    (h : (spelling, kind) ∈ Terminal.marks) {first : Char} {more rest : List Char}
    (hSpelling : spelling.toList = first :: more) (hRest : Stops extendsMark rest) :
    piece first (more ++ rest) = (.token kind (.text spelling) (first :: more), rest) := by
  have hStart := marks_start _ h
  rw [hSpelling, List.head?_cons, Option.any_some, startsMark] at hStart
  simp only [Bool.and_eq_true, Bool.not_eq_true', bne_iff_ne, ne_eq, Bool.or_eq_true, beq_iff_eq,
    List.length_cons, Nat.add_eq_right, List.length_eq_zero_iff] at hStart
  obtain ⟨⟨⟨⟨hBlank, hWord⟩, hDigit⟩, hQuote⟩, hSlash⟩ := hStart
  have hComment : (first == '/' && (more ++ rest).head? == some '/') = false := by
    rw [Bool.and_eq_false_iff]
    rcases hSlash with hOther | rfl
    · exact .inl (beq_eq_false_iff_ne.mpr hOther)
    · refine .inr (beq_eq_false_iff_ne.mpr fun hHead => ?_)
      cases hRest '/' hHead
  have hFind := find?_mark h hRest
  rw [hSpelling, List.cons_append] at hFind
  rw [piece, hBlank, hComment, hWord, hDigit, beq_eq_false_iff_ne.mpr hQuote, markPiece, hFind]
  simp [hSpelling]

/-! ### What stands behind tokens -/

/-- What follows belongs to no token before it. -/
def Detached (rest : List Char) : Prop := ∀ kind, Apart kind rest

/-- Characters that prolong neither a word, nor a number, nor a mark are
detached from whatever is before them. -/
theorem detached_of_stops {rest : List Char} (hWord : Stops isWordPart rest)
    (hDigit : Stops Digit.isDigit rest) (hFraction : fraction? rest = none)
    (hMark : Stops extendsMark rest) : Detached rest := by
  intro kind
  unfold Apart
  split
  · exact ⟨hDigit, hFraction⟩
  · exact hDigit
  · trivial
  · split
    · exact hMark
    · exact hWord

theorem detached_cons {c : Char}
    (h : isWordPart c = false ∧ Digit.isDigit c = false ∧ extendsMark c = false ∧ c ≠ '.')
    (rest : List Char) :
    Detached (c :: rest) := by
  refine detached_of_stops (stops_cons h.1 rest) (stops_cons h.2.1 rest) ?_
    (stops_cons h.2.2.1 rest)
  rw [fraction?]
  intro d more hPoint
  exact h.2.2.2 (List.cons.inj hPoint).1

/-- A point in front of a name begins no fraction. -/
theorem detached_member {name : String} (h : IsName name) (rest : List Char) :
    Detached ('.' :: (name.toList ++ rest)) := by
  obtain ⟨first, more, hName, hFirst, -⟩ := h.spelled
  refine detached_of_stops (stops_cons (by decide) _) (stops_cons (by decide) _) ?_
    (stops_cons (by decide) _)
  rw [hName, List.cons_append, fraction?, if_neg (Bool.eq_false_iff.mp (isDigit_eq_false hFirst))]

/-! ### Laid out tokens -/

/-- A mark is set apart by a character that does not prolong it. -/
theorem apart_mark {spelling : String} {kind : Terminal} (h : (spelling, kind) ∈ Terminal.marks)
    {rest : List Char} :
    Apart kind rest ↔ Stops extendsMark rest := by
  have hAll : ∀ mark ∈ Terminal.marks, mark.2 ∉ [Terminal.integer, .decimal, .text] := by
    decide
  have hKind : kind ∉ [Terminal.integer, .decimal, .text] := hAll _ h
  have hListed : (Terminal.marks.map Prod.snd).contains kind = true :=
    List.contains_iff_mem.mpr (List.mem_map.mpr ⟨_, h, rfl⟩)
  unfold Apart
  split
  · exact absurd (by decide) hKind
  · exact absurd (by decide) hKind
  · exact absurd (by decide) hKind
  · rw [if_pos hListed]

/-- The kinds of tokens that are words, reserved or not. -/
def wordKinds : List Terminal := .identifier :: Terminal.reserved.map Prod.snd

/-- A word is set apart by a character that cannot be in a word. -/
theorem apart_word {kind : Terminal} (h : kind ∈ wordKinds) {rest : List Char} :
    Apart kind rest ↔ Stops isWordPart rest := by
  have hAll : ∀ kind ∈ wordKinds, kind ∉ [Terminal.integer, .decimal, .text] ∧
      (Terminal.marks.map Prod.snd).contains kind = false := by decide
  obtain ⟨hKind, hListed⟩ := hAll _ h
  unfold Apart
  split
  · exact absurd (by decide) hKind
  · exact absurd (by decide) hKind
  · exact absurd (by decide) hKind
  · rw [hListed]
    exact Iff.rfl

theorem Laid.mark {spelling : String} {kind : Terminal}
    (listed : (spelling, kind) ∈ Terminal.marks) {tokens : List (Terminal × Value)}
    {source : List Char} (hSource : Stops extendsMark source) (rest : Laid tokens source) :
    Laid ((kind, .text spelling) :: tokens) (spelling.toList ++ source) :=
  .cons (.mark listed) ((apart_mark listed).mpr hSource) rest

/-- A blank sets off whatever stands before it. -/
theorem Laid.spaced {token : Terminal × Value} {tokens : List (Terminal × Value)}
    {spelling source : List Char} (first : Spelled token spelling) (rest : Laid tokens source) :
    Laid (token :: tokens) (spelling ++ ' ' :: source) :=
  .cons first (detached_cons (by decide) _ _) (.blank (by decide) rest)

/-- Each written token is cut off as it is, if what follows is set apart from
it. One case for each sort of token. -/
theorem piece_of_spelled {token : Terminal × Value} {spelling : List Char}
    (h : Spelled token spelling) {rest : List Char} (hRest : Apart token.1 rest) :
    ∃ first more, spelling = first :: more ∧
      piece first (more ++ rest) = (.token token.1 token.2 spelling, rest) := by
  cases h with
  | @mark spelling kind listed =>
      have hStart := marks_start _ listed
      obtain ⟨first, hHead, -⟩ := (Option.any_eq_true _ _).mp hStart
      obtain ⟨more, hSpelling⟩ := List.head?_eq_some_iff.mp hHead
      refine ⟨first, more, hSpelling, ?_⟩
      rw [piece_of_mark listed hSpelling ((apart_mark listed).mp hRest), hSpelling]
  | @name word named =>
      obtain ⟨first, more, hWord, hFirst, hMore⟩ := named.spelled
      refine ⟨first, more, hWord, ?_⟩
      rw [piece_of_word hFirst hMore ((apart_word (.head _)).mp hRest), ← hWord,
        wordToken_of_isName named]
  | @reserved word kind listed plain =>
      obtain ⟨first, more, hWord, hFirst, hMore⟩ := reserved_spelled listed
      have hKind : kind ∈ wordKinds := .tail _ (List.mem_map.mpr ⟨_, listed, rfl⟩)
      refine ⟨first, more, hWord, ?_⟩
      rw [piece_of_word hFirst hMore ((apart_word hKind).mp hRest), ← hWord,
        wordToken_of_reserved listed plain]
  | truth b =>
      have hKind : Terminal.boolean ∈ wordKinds := by decide
      have hStops := (apart_word hKind).mp hRest
      cases b with
      | true =>
          exact ⟨'t', ['r', 'u', 'e'], rfl,
            piece_of_word (by decide) (List.all_eq_true.mp rfl) hStops⟩
      | false =>
          exact ⟨'f', ['a', 'l', 's', 'e'], rfl,
            piece_of_word (by decide) (List.all_eq_true.mp rfl) hStops⟩
  | @integer digits run short =>
      obtain ⟨first, more, rfl⟩ := List.exists_cons_of_ne_nil run.nonempty
      exact ⟨first, more, rfl, piece_of_digits run short hRest.1 hRest.2⟩
  | @decimal whole places before after =>
      obtain ⟨first, more, rfl⟩ := List.exists_cons_of_ne_nil before.nonempty
      exact ⟨first, more ++ '.' :: places, rfl, piece_of_decimal before after hRest⟩
  | @literal body legal =>
      refine ⟨'"', body.toList ++ ['"'], rfl, ?_⟩
      have hBlank : isBlank '"' = false := by decide
      have hWord : isWordStart '"' = false := by decide
      have hDigit : Digit.isDigit '"' = false := by decide
      rw [List.append_assoc, List.singleton_append]
      simp [piece, hBlank, hWord, hDigit, literalBody_of_isLiteralBody legal rest]

/-! ### Pieces of whole texts -/

/-- A blank is a piece of its own. -/
theorem pieces_blank {c : Char} {rest : List Char} {ps : List Piece} (h : isBlank c = true)
    (hRest : pieces rest = ps) : pieces (c :: rest) = .blank c :: ps := by
  rw [pieces, piece, if_pos h, hRest]

/-- A written token is one piece, if what follows does not belong to it. -/
theorem pieces_spelled {token : Terminal × Value} {spelling rest : List Char} {ps : List Piece}
    (h : Spelled token spelling) (apart : Apart token.1 rest) (hRest : pieces rest = ps) :
    pieces (spelling ++ rest) = .token token.1 token.2 spelling :: ps := by
  obtain ⟨first, more, rfl, hPiece⟩ := piece_of_spelled h apart
  rw [List.cons_append, pieces, hPiece, hRest]

/-- A written token and the blank that sets it off are two pieces. -/
theorem pieces_spaced {token : Terminal × Value} {spelling rest : List Char} {ps : List Piece}
    (h : Spelled token spelling) (hRest : pieces rest = ps) :
    pieces (spelling ++ ' ' :: rest) = .token token.1 token.2 spelling :: .blank ' ' :: ps :=
  pieces_spelled h (detached_cons (by decide) _ _) (pieces_blank (by decide) hRest)

/-- A number of too many digits is one piece, and no token. -/
theorem pieces_overlong {digits rest : List Char} {ps : List Piece} (hRun : IsDigits digits)
    (hLong : digitLimit < digits.length) (hDetached : Detached rest) (hRest : pieces rest = ps) :
    pieces (digits ++ rest) = .overlong digits :: ps := by
  obtain ⟨first, more, rfl⟩ := List.exists_cons_of_ne_nil hRun.nonempty
  obtain ⟨hFirst, hMore⟩ := List.forall_mem_cons.mp hRun.all
  obtain ⟨hStops, hFraction⟩ : Stops Digit.isDigit rest ∧ fraction? rest = none :=
    hDetached .integer
  rw [List.cons_append, pieces, piece_of_isDigit hFirst, ← hRest]
  simp only [numberPiece, takeWhile_run hMore hStops, dropWhile_run hMore hStops, hFraction,
    if_pos hLong]

/-- The tokens of a laid out text are these, and the scanner reports
nothing. -/
theorem collect_of_laid {tokens : List (Terminal × Value)} {source : List Char}
    (h : Laid tokens source) (here : Cursor) :
    ((collect (locate here (pieces source))).tokens.map Token.content = tokens) ∧
      (collect (locate here (pieces source))).fault = none := by
  induction h generalizing here with
  | nil =>
      rw [pieces]
      exact ⟨rfl, rfl⟩
  | blank hBlank _ ih =>
      rw [pieces_blank hBlank rfl]
      exact ih _
  | @cons token tokens spelling source first apart _ ih =>
      rw [pieces_spelled first apart rfl]
      obtain ⟨hTokens, hFault⟩ := ih (here.after spelling)
      exact ⟨congrArg (token :: ·) hTokens, hFault⟩

end Lexer

end PageScript
