import PageScript.Proofs.Markup.Reading

/-! Documents that break off. The end of the tokens is no place where a body
may stop: it is taken for the beginning of an item, which it is not. Main
statement: why the front of a document is refused, told by the last tokens of
it. -/
namespace PageScript.Markup.Reader

/-! ### Why a document is refused -/

/-- What a reader waits for after these tokens, of which the last comes first,
if there is only one kind of token that can follow. -/
def awaited : List Kind → Option Expectation
  | .hash :: _ => some .tag
  | .closingHash :: _ => some .closingTag
  | .comma :: _ => some .attributeKey
  | .identifier :: .comma :: _ => some .attributeColon
  | .colon :: .identifier :: .comma :: _ => some .attributeText
  | .showWord :: _ => some .shownText
  | .text :: .showWord :: _ => some .showEnd
  | .define :: _ => some .definedName
  | .identifier :: .define :: _ => some .defineEquals
  | .identifier :: .equals :: _ => some .defineEnd
  | .text :: .equals :: _ => some .defineEnd
  | _ => none

/-- The token that is taken for the beginning of an item: the key of a first
attribute that is not whole, and otherwise the end. -/
def stray (finish : Token) : List Token → Token
  | [] => finish
  | last :: earlier =>
    if last.kind = .colon then earlier.headD finish
    else if last.kind = .identifier ∧ next? earlier = some .identifier then last
    else finish

/-- Why tokens are refused that break off here. The last token comes first. -/
def breakFault (finish : Token) (seen : List Token) : Fault :=
  match awaited (seen.map Token.kind) with
  | some what => .expected what finish.position
  | none =>
    if next? seen = some .equals then .expectedValue else .unexpectedToken (stray finish seen).text

section

variable {finish : Token} {seen : List Token}

/-- A document that breaks off is refused for want of something exactly if this
is all that could follow. -/
theorem breakFault_eq_expected_iff {what : Expectation} :
    breakFault finish seen = .expected what finish.position ↔
      awaited (seen.map Token.kind) = some what := by
  rw [breakFault]
  cases awaited (seen.map Token.kind) with
  | none =>
      dsimp only
      split <;> simp
  | some other => simp

/-- An item may begin after these tokens, so the end is taken for one. -/
def AtItem (finish : Token) (seen : List Token) : Prop :=
  breakFault finish seen = .unexpectedToken finish.text

theorem atItem_terminator {stop : Token} (h : stop.kind = .terminator) :
    AtItem finish (stop :: seen) := by
  simp [AtItem, breakFault, awaited, stray, next?, h]

theorem atItem_tag {tag mark : Token} (hTag : tag.kind = .identifier)
    (hMark : mark.kind = .hash ∨ mark.kind = .closingHash) :
    AtItem finish (tag :: mark :: seen) := by
  rcases hMark with hMark | hMark <;> simp [AtItem, breakFault, awaited, stray, next?, hTag, hMark]

theorem atItem_attribute {value colon : Token} (hValue : value.kind = .text)
    (hColon : colon.kind = .colon) :
    AtItem finish (value :: colon :: seen) := by
  simp [AtItem, breakFault, awaited, stray, next?, hValue, hColon]

theorem atItem_of_attributeForm {a : Attribute} {ts : List Token}
    (h : AttributeForm a (ts.map Token.lexeme)) :
    AtItem finish (ts.reverse ++ seen) := by
  generalize hForm : ts.map Token.lexeme = form at h
  cases h with
  | mk key colon value =>
      simp only [List.map_eq_cons_iff, List.map_eq_nil_iff, Token.lexeme_eq_iff] at hForm
      obtain ⟨k, _, rfl, -, c, _, rfl, ⟨hColon, -⟩, v, _, rfl, ⟨hValue, -⟩, rfl⟩ :=
        hForm
      exact atItem_attribute hValue hColon

end

/-! ### Readings that break off -/

/-- Two parts that break off do so inside the first, or behind it. -/
theorem break_cases {kept lost first second : List Token} (h : kept ++ lost = first ++ second) :
    (∃ cut, cut ≠ [] ∧ first = kept ++ cut ∧ lost = cut ++ second) ∨
      ∃ rest, kept = first ++ rest ∧ second = rest ++ lost := by
  obtain ⟨cut, hFirst, hLost⟩ | ⟨rest, hKept, hSecond⟩ := List.append_eq_append_iff.mp h
  · by_cases hCut : cut = []
    · subst hCut
      exact .inr ⟨[], by simpa using hFirst.symm, by simpa using hLost.symm⟩
    · exact .inl ⟨cut, hCut, hFirst, hLost⟩
  · exact .inr ⟨rest, hKept, hSecond⟩

section

variable {α : Type} {finish : Token} (hFinish : finish.kind = .finish)

/-- A reading of these tokens, after those that have been seen, is refused
wherever they break off. -/
def Breaks (finish : Token) (seen whole : List Token) (read : Reader α) : Prop :=
  ∀ kept lost, whole = kept ++ lost → lost ≠ [] →
    read (kept ++ [finish]) = .error (breakFault finish (kept.reverse ++ seen))

theorem Breaks.nothing (finish : Token) (seen : List Token) (read : Reader α) :
    Breaks finish seen [] read := by
  intro kept lost hWhole hLost
  exact absurd (List.append_eq_nil_iff.mp hWhole.symm).2 hLost

/-- What breaks off does so at once, or after its first token. -/
theorem Breaks.cons {seen whole : List Token} {t : Token} {read : Reader α}
    (hNow : read [finish] = .error (breakFault finish seen))
    (hLater : Breaks finish (t :: seen) whole fun tokens => read (t :: tokens)) :
    Breaks finish seen (t :: whole) read := by
  intro kept lost hWhole hLost
  cases kept with
  | nil => exact hNow
  | cons first kept =>
      obtain ⟨rfl, rfl⟩ := List.cons.inj hWhole
      have hRead := hLater kept lost rfl hLost
      rw [List.reverse_cons, List.append_assoc]
      exact hRead

include hFinish

theorem take_finish {kind : Kind} (hKind : kind ≠ .finish) (what : Expectation) :
    take kind what [finish] = .error (.expected what finish.position) := by
  rw [take, if_neg (hFinish ▸ hKind.symm)]

/-- Behind the word for it, a text to show is refused wherever it breaks
off. -/
theorem breaks_shown {item : Item} {word : Token} {ts : List Token}
    (h : ShownForm item ((word :: ts).map Token.lexeme)) (seen : List Token) :
    Breaks finish (word :: seen) ts fun tokens => shown (word :: tokens) := by
  generalize hForm : (word :: ts).map Token.lexeme = form at h
  cases h with
  | mk _ message stop =>
      simp only [List.map_eq_cons_iff, List.map_eq_nil_iff, Token.lexeme_eq_iff,
        List.cons.injEq] at hForm
      obtain ⟨_, _, ⟨rfl, rfl⟩, ⟨hWord, -⟩, m, _, rfl, ⟨hMessage, rfl⟩, s, _, rfl,
          ⟨hStop, -⟩, rfl⟩ := hForm
      refine .cons ?_ (.cons ?_ (.nothing finish _ _))
      · simp [shown, take, bind_eq_error_iff, -bind_pure_comp, breakFault, awaited, hFinish, hWord]
      · simp [shown, take, bind_eq_error_iff, -bind_pure_comp, breakFault, awaited, hFinish,
          hWord, hMessage]

/-- Behind the word for it, a definition is refused wherever it breaks off. It
can break off before each of its tokens, and before the value the reason is
another one. -/
theorem breaks_definition {item : Item} {word : Token} {ts : List Token}
    (h : DefinitionForm item ((word :: ts).map Token.lexeme)) (seen : List Token) :
    Breaks finish (word :: seen) ts fun tokens => definition (word :: tokens) := by
  generalize hForm : (word :: ts).map Token.lexeme = form at h
  cases h with
  | mk define name equals stop defined =>
      simp only [List.map_eq_cons_iff, List.map_eq_nil_iff, Token.lexeme_eq_iff,
        List.cons.injEq] at hForm
      obtain ⟨_, _, ⟨rfl, rfl⟩, ⟨hWord, -⟩, n, _, rfl, ⟨hName, rfl⟩, e, _, rfl,
          ⟨hEquals, -⟩, v, _, rfl, rfl, s, _, rfl, ⟨hStop, -⟩, rfl⟩ := hForm
      have hValue : v.kind = .identifier ∨ v.kind = .text := by
        generalize hLexeme : v.lexeme = lexeme at defined
        cases defined with
        | name => exact .inl (Token.lexeme_eq_iff.mp hLexeme).1
        | literal => exact .inr (Token.lexeme_eq_iff.mp hLexeme).1
      refine .cons ?_ (.cons ?_ (.cons ?_ (.cons ?_ (.nothing finish _ _))))
      · simp [definition, take, bind_eq_error_iff, -bind_pure_comp, breakFault, awaited,
          hFinish, hWord]
      · simp [definition, take, bind_eq_error_iff, -bind_pure_comp, breakFault, awaited, hFinish,
          hWord, hName]
      · simp [definition, take, definedValue, next?, bind_eq_error_iff, -bind_pure_comp,
          breakFault, awaited, hFinish, hName, hEquals]
      · rcases hValue with hValue | hValue <;>
          simp [definition, take, definedValue, bind_eq_error_iff, -bind_pure_comp, breakFault,
            awaited, hFinish, hName, hEquals, hValue]

/-! ### Attributes -/

/-- Behind a comma an attribute is waited for, and waited for until it is
whole. -/
theorem breaks_oneAttribute {a : Attribute} {comma : Token} {ts : List Token}
    (hComma : comma.kind = .comma) (h : AttributeForm a (ts.map Token.lexeme)) (seen : List Token) :
    Breaks finish (comma :: seen) ts oneAttribute := by
  generalize hForm : ts.map Token.lexeme = form at h
  cases h with
  | mk key colon value =>
      simp only [List.map_eq_cons_iff, List.map_eq_nil_iff, Token.lexeme_eq_iff] at hForm
      obtain ⟨k, _, rfl, ⟨hKey, rfl⟩, c, _, rfl, ⟨hColon, -⟩, v, _, rfl,
          ⟨hValue, rfl⟩, rfl⟩ := hForm
      refine .cons ?_ (.cons ?_ (.cons ?_ (.nothing finish _ _)))
      · simp [oneAttribute, take, bind_eq_error_iff, -bind_pure_comp, breakFault, awaited,
          hFinish, hComma]
      · simp [oneAttribute, take, bind_eq_error_iff, -bind_pure_comp, breakFault, awaited, hFinish,
          hComma, hKey]
      · simp [oneAttribute, take, bind_eq_error_iff, -bind_pure_comp, breakFault, awaited, hFinish,
          hComma, hKey, hColon]

theorem next?_finish (rest : List Token) : next? (finish :: rest) = some .finish := by
  rw [next?, List.head?_cons, Option.map_some, hFinish]

/-- Attributes behind the first are refused where one of them breaks off.
Between them the end is left for what comes next. -/
theorem moreAttributes_break {others : List Attribute} {form : List Lexeme}
    (h : MoreForm others form) {kept lost seen : List Token}
    (hForm : (kept ++ lost).map Token.lexeme = form) (hSeen : AtItem finish seen) {bound : Nat}
    (hBound : kept.length < bound) :
    moreAttributes bound (kept ++ [finish]) = .error (breakFault finish (kept.reverse ++ seen)) ∨
      AtItem finish (kept.reverse ++ seen) ∧
        ∃ found, moreAttributes bound (kept ++ [finish]) = .ok (found, [finish]) := by
  have hNone : ∀ {bound : Nat}, 0 < bound → ∃ found,
      moreAttributes bound [finish] = .ok (found, [finish]) := by
    intro bound hPositive
    obtain ⟨bound, rfl⟩ := Nat.exists_eq_succ_of_ne_zero (Nat.ne_of_gt hPositive)
    exact ⟨[], moreAttributes_of_ne_comma (by rw [next?_finish hFinish]; decide) bound⟩
  induction h generalizing kept seen bound with
  | nil =>
      obtain ⟨rfl, -⟩ := List.append_eq_nil_iff.mp (List.map_eq_nil_iff.mp hForm)
      exact .inr ⟨hSeen, hNone hBound⟩
  | cons comma first more ih =>
      cases kept with
      | nil => exact .inr ⟨hSeen, hNone hBound⟩
      | cons c kept =>
          cases bound with
          | zero => cases hBound
          | succ bound =>
              rw [List.cons_append, List.map_cons, List.cons.injEq, Token.lexeme_eq_iff] at hForm
              obtain ⟨⟨hComma, -⟩, hForm⟩ := hForm
              obtain ⟨us, vs, hTokens, hFirst, hMore⟩ := List.map_eq_append_iff.mp hForm
              subst hFirst
              rw [List.cons_append, moreAttributes_of_comma hComma, List.reverse_cons,
                List.append_assoc]
              obtain ⟨cut, hCut, rfl, -⟩ | ⟨rest, rfl, rfl⟩ := break_cases hTokens
              · rw [breaks_oneAttribute hFinish hComma first seen kept cut rfl hCut]
                exact .inl rfl
              · rw [List.length_cons, List.length_append] at hBound
                have hAfter : AtItem finish (us.reverse ++ c :: seen) :=
                  atItem_of_attributeForm first
                have hLess : rest.length < bound := by omega
                have hLater := ih hMore hAfter hLess
                rw [List.append_assoc, oneAttribute_of_form first, ok_bind, List.reverse_append,
                  List.append_assoc]
                obtain hError | ⟨hAt, found, hOk⟩ := hLater
                · dsimp only
                  rw [hError]
                  exact .inl rfl
                · refine .inr ⟨hAt, ?_⟩
                  dsimp only
                  rw [hOk]
                  exact ⟨_, rfl⟩

omit hFinish in
/-- Items that begin like none are refused at their first token. -/
theorem items_of_not_opensContent {t : Token} {rest : List Token} (h : ¬ OpensContent (t :: rest))
    (bound : Nat) :
    items (bound + 1) (t :: rest) = .error (.unexpectedToken t.text) := by
  simp only [OpensContent, next?, List.head?_cons, Option.map_some, List.mem_cons,
    Option.some.injEq, List.not_mem_nil, or_false, not_or] at h
  obtain ⟨hShow, hDefine, hHash, hClosing⟩ := h
  rw [items_of_not_closing hClosing, contentItem]
  split
  · exact absurd (by assumption) hShow
  · exact absurd (by assumption) hDefine
  · exact absurd (by assumption) hHash
  · rfl

/-- The end does not stop the items of an element: it is taken for one. -/
theorem items_finish (bound : Nat) (rest : List Token) :
    items (bound + 1) (finish :: rest) = .error (.unexpectedToken finish.text) :=
  items_of_not_opensContent (by simp [OpensContent, next?, hFinish]) bound

/-- A head that breaks off is refused, or leaves the items something that is
none. -/
def Stumbles (finish : Token) (seen : List Token) (result : Except Fault (α × List Token)) :
    Prop :=
  result = .error (breakFault finish seen) ∨
    ∃ found t rest, result = .ok (found, t :: rest) ∧ ¬ OpensContent (t :: rest) ∧
      breakFault finish seen = .unexpectedToken t.text

theorem stumbles_finish {seen : List Token} (h : AtItem finish seen) (found : α) :
    Stumbles finish seen (.ok (found, [finish])) :=
  .inr ⟨found, finish, [], rfl, by simp [OpensContent, next?, hFinish], h⟩

/-- A first attribute that is not whole is not seen as one: its key is taken
for an item. Three tokens are looked at, and if it breaks off, the last of them
is the end. -/
theorem stumbles_firstAttribute {a : Attribute} {kept cut seen : List Token} {tag mark : Token}
    (h : AttributeForm a ((kept ++ cut).map Token.lexeme)) (hCut : cut ≠ [])
    (hTag : tag.kind = .identifier) (hMark : mark.kind = .hash) :
    Stumbles finish (kept.reverse ++ tag :: mark :: seen) (attributes (kept ++ [finish])) := by
  generalize hForm : (kept ++ cut).map Token.lexeme = form at h
  cases h with
  | mk key colon value =>
      simp only [List.map_eq_cons_iff, List.map_eq_nil_iff, Token.lexeme_eq_iff] at hForm
      obtain ⟨k, _, hAll, ⟨hKey, -⟩, c, _, rfl, ⟨hColon, -⟩, v, _, rfl, -, rfl⟩ := hForm
      have hItem : ∀ rest, ¬ OpensContent (k :: rest) :=
        fun rest => by simp [OpensContent, next?, hKey]
      obtain ⟨rfl, -⟩ | ⟨behind, rfl, hBehind⟩ := List.append_eq_cons_iff.mp hAll
      · exact stumbles_finish hFinish (atItem_tag hTag (.inl hMark)) []
      obtain ⟨rfl, -⟩ | ⟨last, rfl, hLast⟩ := List.cons_eq_append_iff.mp hBehind
      · refine .inr ⟨[], k, [finish], rfl, hItem _, ?_⟩
        simp [breakFault, awaited, stray, next?, hKey, hTag]
      obtain ⟨rfl, -⟩ | ⟨_, rfl, hNone⟩ := List.cons_eq_append_iff.mp hLast
      · refine .inr ⟨[], k, [c, finish], ?_, hItem _, ?_⟩
        · simp [attributes_eq, atAttribute, hFinish]
        · simp [breakFault, awaited, stray, next?, hKey, hTag, hColon]
      · exact absurd (List.append_eq_nil_iff.mp hNone.symm).2 hCut

/-- Attributes that break off are refused, or leave a first attribute that is
not whole to be taken for an item. -/
theorem stumbles_attributes {found : List Attribute} {kept lost seen : List Token}
    {tag mark : Token} (h : AttributesForm found ((kept ++ lost).map Token.lexeme))
    (hTag : tag.kind = .identifier) (hMark : mark.kind = .hash) :
    Stumbles finish (kept.reverse ++ tag :: mark :: seen) (attributes (kept ++ [finish])) := by
  generalize hForm : (kept ++ lost).map Token.lexeme = form at h
  cases h with
  | mk first more =>
      obtain ⟨us, vs, hTokens, hFirst, hMore⟩ := List.map_eq_append_iff.mp hForm
      obtain ⟨cut, hCut, rfl, -⟩ | ⟨rest, rfl, rfl⟩ := break_cases hTokens
      · subst hFirst
        exact stumbles_firstAttribute hFinish first hCut hTag hMark
      · subst hFirst
        have hAfter : AtItem finish (us.reverse ++ tag :: mark :: seen) :=
          atItem_of_attributeForm first
        have hLess : rest.length < (rest ++ [finish]).length + 1 := by
          rw [List.length_append]
          omega
        have hLater := moreAttributes_break hFinish more hMore hAfter hLess
        rw [attributes_eq, List.append_assoc, if_pos (atAttribute_of_form first _),
          oneAttribute_of_form first, ok_bind, List.reverse_append, List.append_assoc]
        dsimp only
        obtain hError | ⟨hAt, others, hOk⟩ := hLater
        · rw [hError]
          exact .inl rfl
        · rw [hOk, ok_bind]
          dsimp only
          rw [afterAttributes, if_neg (by rw [next?_finish hFinish]; decide)]
          exact stumbles_finish hFinish hAt _

/-- Behind a form of attributes an item may begin. All of them are read, so the
reading was not refused. -/
theorem atItem_of_attributesForm {found : List Attribute} {ts : List Token}
    (h : AttributesForm found (ts.map Token.lexeme)) (seen : List Token) :
    AtItem finish (ts.reverse ++ seen) := by
  generalize hForm : ts.map Token.lexeme = form at h
  cases h with
  | mk first more =>
      obtain ⟨us, vs, rfl, rfl, hMore⟩ := List.map_eq_append_iff.mp hForm
      have hFirst : AtItem finish (us.reverse ++ seen) := atItem_of_attributeForm first
      have hWhole := (congrArg (List.map Token.lexeme) (List.append_nil vs)).trans hMore
      have hRead := moreAttributes_of_form more hMore (Nat.lt_succ_self vs.length)
        (by rw [next?_finish hFinish]; decide : next? [finish] ≠ some .comma)
      rw [List.reverse_append, List.append_assoc]
      obtain hError | ⟨hAt, -⟩ :=
        moreAttributes_break hFinish more hWhole hFirst (Nat.lt_succ_self vs.length)
      · rw [hRead] at hError
        cases hError
      · exact hAt

/-- Behind the head of an element an item may begin. -/
theorem atItem_of_headForm {found : List Attribute} {ts seen : List Token} {tag mark : Token}
    (h : HeadForm found (ts.map Token.lexeme)) (hTag : tag.kind = .identifier)
    (hMark : mark.kind = .hash) :
    AtItem finish (ts.reverse ++ tag :: mark :: seen) := by
  generalize hForm : ts.map Token.lexeme = form at h
  cases h with
  | none =>
      cases List.map_eq_nil_iff.mp hForm
      exact atItem_tag hTag (.inl hMark)
  | plain all =>
      subst hForm
      exact atItem_of_attributesForm hFinish all _
  | terminated all stop =>
      obtain ⟨us, vs, rfl, rfl, hStop⟩ := List.map_eq_append_iff.mp hForm
      simp only [List.map_eq_cons_iff, List.map_eq_nil_iff, Token.lexeme_eq_iff] at hStop
      obtain ⟨t, _, rfl, ⟨hKind, -⟩, rfl⟩ := hStop
      rw [List.reverse_append, List.append_assoc]
      exact atItem_terminator hKind

/-- The head of an element that breaks off is refused, or leaves something that
is no item. A terminator behind the attributes leaves the end. -/
theorem stumbles_head {found : List Attribute} {kept lost seen : List Token} {tag mark : Token}
    (h : HeadForm found ((kept ++ lost).map Token.lexeme)) (hTag : tag.kind = .identifier)
    (hMark : mark.kind = .hash) :
    Stumbles finish (kept.reverse ++ tag :: mark :: seen) (attributes (kept ++ [finish])) := by
  generalize hForm : (kept ++ lost).map Token.lexeme = form at h
  cases h with
  | none =>
      obtain ⟨rfl, -⟩ := List.append_eq_nil_iff.mp (List.map_eq_nil_iff.mp hForm)
      exact stumbles_finish hFinish (atItem_tag hTag (.inl hMark)) []
  | plain all =>
      subst hForm
      exact stumbles_attributes hFinish all hTag hMark
  | terminated all stop =>
      obtain ⟨us, vs, hTokens, hAll, hStop⟩ := List.map_eq_append_iff.mp hForm
      subst hAll
      obtain ⟨cut, -, rfl, -⟩ | ⟨rest, rfl, rfl⟩ := break_cases hTokens
      · exact stumbles_attributes hFinish all hTag hMark
      · simp only [List.map_eq_cons_iff, List.map_eq_nil_iff, Token.lexeme_eq_iff] at hStop
        obtain ⟨t, _, hStop, ⟨hKind, -⟩, rfl⟩ := hStop
        obtain ⟨rfl, -⟩ | ⟨rfl, -⟩ := List.append_eq_singleton_iff.mp hStop
        · rw [List.append_nil]
          exact stumbles_attributes hFinish (by rwa [List.append_nil]) hTag hMark
        · have hNext : next? ([t] ++ [finish]) = some .terminator := by simp [next?, hKind]
          rw [List.append_assoc, attributes_of_attributesForm all (by rw [hNext]; decide),
            afterAttributes, if_pos hNext, List.reverse_append, List.append_assoc]
          exact stumbles_finish hFinish (atItem_terminator hKind) _

/-! ### Items and elements -/

omit hFinish in
/-- Behind a form of an item an item may begin. It ends with a terminator or
with the name of a closing tag. -/
theorem atItem_of_itemForm {item : Item} {ts : List Token} (h : ItemForm item (ts.map Token.lexeme))
    (seen : List Token) : AtItem finish (ts.reverse ++ seen) := by
  generalize hForm : ts.map Token.lexeme = form at h
  cases h with
  | shown h =>
      cases h
      simp only [List.map_eq_cons_iff, List.map_eq_nil_iff, Token.lexeme_eq_iff] at hForm
      obtain ⟨w, _, rfl, -, m, _, rfl, -, s, _, rfl, ⟨hStop, -⟩, rfl⟩ := hForm
      exact atItem_terminator hStop
  | definition h =>
      cases h
      simp only [List.map_eq_cons_iff, List.map_eq_nil_iff, Token.lexeme_eq_iff] at hForm
      obtain ⟨w, _, rfl, -, n, _, rfl, -, e, _, rfl, -, v, _, rfl, -, s, _, rfl, ⟨hStop, -⟩,
          rfl⟩ := hForm
      exact atItem_terminator hStop
  | element h =>
      cases h
      simp only [List.map_eq_cons_iff, List.map_eq_append_iff, List.map_eq_nil_iff,
        Token.lexeme_eq_iff] at hForm
      obtain ⟨h, _, rfl, -, o, _, rfl, -, fs, _, rfl, -, is, _, rfl, -, c, _, rfl,
          ⟨hClosing, -⟩, e, _, rfl, ⟨hName, -⟩, rfl⟩ := hForm
      have hReverse : (h :: o :: (fs ++ (is ++ [c, e]))).reverse ++ seen =
          e :: c :: (is.reverse ++ (fs.reverse ++ o :: h :: seen)) := by simp
      rw [hReverse]
      exact atItem_tag hName (.inr hClosing)

omit hFinish in
theorem opensContent_of_front {found : List Item} {t : Token} {rest : List Token}
    (h : ItemsForm found ((t :: rest).map Token.lexeme)) (others : List Token) :
    OpensContent (t :: others) := by
  have hNext : next? [(⟨.closingHash, [], 0⟩ : Token)] = some .closingHash := rfl
  exact opensContent_of_form h hNext

omit hFinish in
theorem element_error_of_attributes {mark tag : Token} (hMark : mark.kind = .hash)
    (hTag : tag.kind = .identifier) {rest : List Token} {fault : Fault}
    (h : attributes rest = .error fault) (bound : Nat) :
    element (bound + 1) (mark :: tag :: rest) = .error fault := by
  rw [element]
  simp only [take_of_kind, hMark, hTag, ok_bind, h]
  rfl

omit hFinish in
/-- An element whose attributes are read is refused for its items if these are
refused. -/
theorem element_error_of_items {mark tag : Token} (hMark : mark.kind = .hash)
    (hTag : tag.kind = .identifier) {found : List Attribute} {rest inside : List Token}
    {fault : Fault} {bound : Nat} (hHead : attributes rest = .ok (found, inside))
    (hItems : items bound inside = .error fault) :
    element (bound + 1) (mark :: tag :: rest) = .error fault := by
  rw [element]
  simp only [take_of_kind, hMark, hTag, ok_bind, hHead, hItems]
  rfl

/-- Behind the mark that closes an element its tag is waited for. -/
theorem element_error_of_closing {mark tag closing : Token} (hMark : mark.kind = .hash)
    (hTag : tag.kind = .identifier) (hClosing : closing.kind = .closingHash)
    {found : List Attribute} {content : List Item} {rest inside : List Token} {bound : Nat}
    (hHead : attributes rest = .ok (found, inside))
    (hItems : items bound inside = .ok (content, [closing, finish])) :
    element (bound + 1) (mark :: tag :: rest) = .error (.expected .closingTag finish.position) := by
  have hTake := take_finish hFinish (by decide : Kind.identifier ≠ .finish) .closingTag
  rw [element]
  simp only [take_of_kind, hMark, hTag, hClosing, ok_bind, hHead, hItems, hTake]
  rfl

omit hFinish in
/-- An element whose head breaks off is refused as the head is, or for what the
head leaves to be taken for an item. -/
theorem element_of_stumbles {mark tag : Token} (hMark : mark.kind = .hash)
    (hTag : tag.kind = .identifier) {rest seen : List Token}
    (h : Stumbles finish seen (attributes rest)) (bound : Nat) :
    element (bound + 2) (mark :: tag :: rest) = .error (breakFault finish seen) := by
  obtain hError | ⟨found, t, others, hOk, hNone, hFault⟩ := h
  · exact element_error_of_attributes hMark hTag hError (bound + 1)
  · rw [hFault]
    exact element_error_of_items hMark hTag hOk (items_of_not_opensContent hNone bound)

/-- Whatever form of an element breaks off is refused under this bound. -/
def ElementBreaks (finish : Token) (bound : Nat) : Prop :=
  ∀ {item : Item} {kept lost : List Token}, ElementForm item ((kept ++ lost).map Token.lexeme) →
    kept ≠ [] →
    lost ≠ [] → kept.length ≤ bound →
      ∀ seen, element bound (kept ++ [finish]) = .error (breakFault finish (kept.reverse ++ seen))

/-- Items are refused under this bound wherever they break off, also behind the
last of them. -/
def ItemsBreak (finish : Token) (bound : Nat) : Prop :=
  ∀ {found : List Item} {kept lost : List Token},
    ItemsForm found ((kept ++ lost).map Token.lexeme) →
    kept.length < bound → ∀ seen, AtItem finish seen →
      items bound (kept ++ [finish]) = .error (breakFault finish (kept.reverse ++ seen))

/-- An item is refused wherever it breaks off, if this is so for elements. Its
first token is kept, so it is known which form of item breaks off. -/
theorem contentItem_break {bound : Nat} (hElement : ElementBreaks finish bound) {item : Item}
    {kept lost : List Token} (h : ItemForm item ((kept ++ lost).map Token.lexeme))
    (hKept : kept ≠ []) (hLost : lost ≠ []) (hBound : kept.length ≤ bound)
    (seen : List Token) :
    contentItem bound (kept ++ [finish]) = .error (breakFault finish (kept.reverse ++ seen)) := by
  obtain ⟨t, rest, rfl⟩ := List.exists_cons_of_ne_nil hKept
  generalize hForm : (t :: rest ++ lost).map Token.lexeme = form at h
  cases h with
  | shown h =>
      have hRead := breaks_shown hFinish (hForm ▸ h) seen rest lost rfl hLost
      cases h
      have hKind : t.kind = .showWord := congrArg Lexeme.kind (List.cons.inj hForm).1
      rw [List.cons_append, contentItem, hKind, List.reverse_cons, List.append_assoc]
      exact hRead
  | definition h =>
      have hRead := breaks_definition hFinish (hForm ▸ h) seen rest lost rfl hLost
      cases h
      have hKind : t.kind = .define := congrArg Lexeme.kind (List.cons.inj hForm).1
      rw [List.cons_append, contentItem, hKind, List.reverse_cons, List.append_assoc]
      exact hRead
  | element h =>
      have hRead := hElement (hForm ▸ h) hKept hLost hBound seen
      cases h
      have hKind : t.kind = .hash := congrArg Lexeme.kind (List.cons.inj hForm).1
      rw [List.cons_append, contentItem, hKind]
      exact hRead

/-- The items of an element break off, or its head does where they would begin.
A whole head before the end opens no content either, so it is not read as the
form of a head. -/
theorem element_break_items {bound : Nat} (hItems : ItemsBreak finish bound) {mark tag : Token}
    (hMark : mark.kind = .hash) (hTag : tag.kind = .identifier) {attributes : List Attribute}
    {found : List Item} {fs kept lost : List Token}
    (head : HeadForm attributes (fs.map Token.lexeme))
    (inside : ItemsForm found ((kept ++ lost).map Token.lexeme)) (hBound : kept.length < bound)
    (seen : List Token) :
    element (bound + 1) (mark :: tag :: (fs ++ (kept ++ [finish]))) =
      .error (breakFault finish (kept.reverse ++ (fs.reverse ++ tag :: mark :: seen))) := by
  cases kept with
  | nil =>
      obtain ⟨bound, rfl⟩ := Nat.exists_eq_succ_of_ne_zero (Nat.ne_of_gt hBound)
      rw [← List.append_nil fs] at head
      exact element_of_stumbles hMark hTag (stumbles_head hFinish head hTag hMark) bound
  | cons t kept =>
      have hHead := attributes_of_form head (opensContent_of_front inside (kept ++ [finish]))
      have hSeen : AtItem finish (fs.reverse ++ tag :: mark :: seen) :=
        atItem_of_headForm hFinish head hTag hMark
      have hInside := hItems inside hBound _ hSeen
      exact element_error_of_items hMark hTag hHead hInside

/-- An element is refused wherever it breaks off, if this is so for items, with
one step less. The break is in the head, in the items, or between the closing
mark and its tag. -/
theorem element_break {bound : Nat} (hItems : ItemsBreak finish bound) :
    ElementBreaks finish (bound + 1) := by
  intro item kept lost h hKept hLost hBound seen
  generalize hForm : (kept ++ lost).map Token.lexeme = form at h
  cases h with
  | mk hash tag closing head inside =>
      simp only [List.map_eq_cons_iff, List.map_eq_append_iff, List.map_eq_nil_iff,
        Token.lexeme_eq_iff] at hForm
      obtain ⟨h, _, hTokens, ⟨hHash, -⟩, o, _, rfl, ⟨hOpening, -⟩, fs, _, rfl, rfl, is, _,
          rfl, rfl, c, _, rfl, ⟨hClosing, -⟩, e, _, rfl, ⟨hName, -⟩, rfl⟩ := hForm
      obtain ⟨rfl, -⟩ | ⟨behind, rfl, hBehind⟩ := List.append_eq_cons_iff.mp hTokens
      · exact absurd rfl hKept
      obtain ⟨rfl, -⟩ | ⟨rest, rfl, hRest⟩ := List.cons_eq_append_iff.mp hBehind
      · simp [element, take, hHash, hFinish, breakFault, awaited, bind_eq_error_iff,
          -bind_pure_comp]
      have hReverse : (h :: o :: rest).reverse ++ seen = rest.reverse ++ o :: h :: seen := by simp
      rw [hReverse, List.cons_append, List.cons_append]
      rw [List.length_cons, List.length_cons] at hBound
      obtain ⟨cut, -, rfl, -⟩ | ⟨inner, rfl, hInner⟩ := break_cases hRest.symm
      · obtain ⟨bound, rfl⟩ := Nat.exists_eq_add_of_le' (Nat.le_of_succ_le_succ hBound)
        exact element_of_stumbles hHash hOpening (stumbles_head hFinish head hOpening hHash) _
      rw [List.length_append] at hBound
      rw [List.append_assoc, List.reverse_append, List.append_assoc]
      obtain ⟨cut, -, rfl, -⟩ | ⟨last, rfl, hLast⟩ := break_cases hInner.symm
      · exact element_break_items hFinish hItems hHash hOpening head inside (by omega) seen
      rw [List.length_append] at hBound
      obtain ⟨rfl, -⟩ | ⟨none, rfl, hNone⟩ := List.cons_eq_append_iff.mp hLast
      · rw [List.append_nil]
        rw [← List.append_nil is] at inside
        exact element_break_items hFinish hItems hHash hOpening head inside (by omega) seen
      obtain ⟨rfl, -⟩ | ⟨_, rfl, hAll⟩ := List.cons_eq_append_iff.mp hNone
      · have hNext : next? ([c] ++ [finish]) = some .closingHash := by simp [next?, hClosing]
        have hRead := (reading_of_form bound).2 inside (by omega) _ hNext
        have hHead := attributes_of_form head (opensContent_of_form inside hNext)
        have hFault : breakFault finish ((is ++ [c]).reverse ++ (fs.reverse ++ o :: h :: seen)) =
            .expected .closingTag finish.position := by
          rw [breakFault_eq_expected_iff]
          simp [awaited, hClosing]
        rw [List.append_assoc, hFault]
        exact element_error_of_closing hFinish hHash hOpening hClosing hHead hRead
      · exact absurd (List.append_eq_nil_iff.mp hAll.symm).2 hLost

/-- Items are refused wherever they break off, if this is so for the first of
them and for the others, with one step less. -/
theorem items_break {bound : Nat} (hElement : ElementBreaks finish bound)
    (hItems : ItemsBreak finish bound) :
    ItemsBreak finish (bound + 1) := by
  intro found kept lost h hBound seen hSeen
  cases kept with
  | nil =>
      rw [List.nil_append, items_finish hFinish, List.reverse_nil, List.nil_append, hSeen]
  | cons t kept =>
      generalize hForm : (t :: kept ++ lost).map Token.lexeme = form at h
      cases h with
      | nil => cases hForm
      | cons first more =>
          obtain ⟨us, vs, hTokens, rfl, rfl⟩ := List.map_eq_append_iff.mp hForm
          obtain ⟨_, others, rfl, hKind⟩ := exists_head_of_map first
          obtain rfl := (List.cons.inj hTokens).1
          have hNot : t.kind ≠ .closingHash := fun hClosing => by simp [hClosing] at hKind
          obtain ⟨cut, hCut, hFirst, -⟩ | ⟨rest, hKept, rfl⟩ := break_cases hTokens
          · rw [hFirst] at first
            have hRead := contentItem_break hFinish hElement first (List.cons_ne_nil t kept) hCut
              (Nat.le_of_lt_succ hBound) seen
            rw [List.cons_append] at hRead
            rw [List.cons_append, items_of_not_closing hNot, hRead]
            rfl
          · rw [hKept, List.length_append] at hBound
            have hLength : 0 < (t :: others).length :=
              List.length_pos_iff.mpr (List.cons_ne_nil t others)
            have hItem :=
              contentItem_of_form (reading_of_form bound).1 first (by omega) (rest ++ [finish])
            have hLater := hItems more (by omega) _ (atItem_of_itemForm first seen)
            rw [hKept, List.reverse_append, List.append_assoc, List.append_assoc, List.cons_append,
              items_of_not_closing hNot, ← List.cons_append, hItem, ok_bind]
            dsimp only
            rw [hLater]
            rfl

/-- Forms that break off are refused. The two statements are proved together,
by induction on the bound, as the reading of whole forms is. -/
theorem reading_break (bound : Nat) : ElementBreaks finish bound ∧ ItemsBreak finish bound := by
  induction bound with
  | zero =>
      constructor
      · intro item kept lost h hKept hLost hBound
        exact absurd (List.length_eq_zero_iff.mp (Nat.le_zero.mp hBound)) hKept
      · intro found kept lost h hBound
        cases hBound
  | succ bound ih => exact ⟨element_break hFinish ih.2, items_break hFinish ih.1 ih.2⟩

end

/-! ### Documents -/

/-- The front of a document is always refused, and its last tokens tell why.
What is refused at the end as something expected is what breaks off where only
one kind of token can follow. The end itself never stops the items of an
element: wherever they may go on, it is taken for one of them. -/
theorem document_truncated {item : Item} {kept lost rest : List Token}
    (hDocument : document (kept ++ lost ++ rest) = .ok (item, rest)) (hKept : kept ≠ [])
    (hLost : lost ≠ []) {finish : Token} (hFinish : finish.kind = .finish) :
    document (kept ++ [finish]) = .error (breakFault finish kept.reverse) ∧
      ((∃ what, document (kept ++ [finish]) = .error (.expected what finish.position)) ↔
        (awaited (kept.reverse.map Token.kind)).isSome) ∧
      ∀ bound others, items (bound + 1) (finish :: others) =
        .error (.unexpectedToken finish.text) := by
  obtain ⟨ts, hTokens, hForm⟩ := document_eq_ok_iff.mp hDocument
  obtain rfl := List.append_cancel_right hTokens
  have hLength : kept.length ≤ (kept ++ [finish]).length + 1 := by
    rw [List.length_append]
    omega
  have hBreak := (reading_break hFinish _).1 hForm hKept hLost hLength []
  rw [List.append_nil] at hBreak
  refine ⟨hBreak, ?_, items_finish hFinish⟩
  rw [document, hBreak, Option.isSome_iff_exists]
  simp only [Except.error.injEq, breakFault_eq_expected_iff]

/-- The tokens of `#p show "hi"\\ \#p`. -/
def greeting : List Token :=
  [⟨.hash, Utf8.encode "#", 0⟩, ⟨.identifier, Utf8.encode "p", 1⟩,
    ⟨.showWord, Utf8.encode "show", 3⟩, ⟨.text, Utf8.encode "hi", 8⟩,
    ⟨.terminator, Utf8.encode "\\\\", 12⟩, ⟨.closingHash, Utf8.encode "\\#", 15⟩,
    ⟨.identifier, Utf8.encode "p", 17⟩]

def finishAt (position : Int32) : Token := ⟨.finish, Utf8.encode "<EOF>", position⟩

/-- A greeting that breaks off behind the word for showing is refused for want
of its text, at the place where it ends. -/
theorem document_truncated_show :
    document (greeting.take 3 ++ [finishAt 7]) = .error (.expected .shownText 7) := by
  have hDocument : document (greeting.take 3 ++ greeting.drop 3 ++ [finishAt 18]) =
      .ok (.element (Utf8.encode "p") [] [.shown (Utf8.encode "hi")], [finishAt 18]) := rfl
  exact (document_truncated hDocument (by decide) (by decide) rfl).1

/-- Behind the terminator of a statement the end is not reported as something
missing. -/
theorem document_truncated_terminator :
    document (greeting ++ [finishAt 18]) =
        .ok (.element (Utf8.encode "p") [] [.shown (Utf8.encode "hi")], [finishAt 18]) ∧
      document (greeting.take 5 ++ [finishAt 15]) =
        .error (.unexpectedToken (Utf8.encode "<EOF>")) :=
  ⟨rfl, rfl⟩

end PageScript.Markup.Reader
