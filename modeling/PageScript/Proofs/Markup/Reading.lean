import PageScript.Proofs.Markup.Grammar
import PageScript.Proofs.Sequencing

/-! Reading accepts exactly the grammar. A form of an element is read as that
element whatever follows it, and what is read always stands behind a form. -/
namespace PageScript.Markup

@[simp] theorem Token.lexeme_eq_iff {t : Token} {kind : Kind} {text : Bytes} :
    t.lexeme = ⟨kind, text⟩ ↔ t.kind = kind ∧ t.text = text := by
  simp [Token.lexeme]

namespace Reader

/-- A token is taken exactly if it comes next and has the wanted kind. -/
theorem take_eq_ok_iff {kind : Kind} {what : Expectation} {tokens rest : List Token} {t : Token} :
    take kind what tokens = .ok (t, rest) ↔ tokens = t :: rest ∧ t.kind = kind := by
  cases tokens with
  | nil => simp [take]
  | cons first others =>
      rw [take]
      by_cases hKind : first.kind = kind
      · rw [if_pos hKind]
        constructor
        · intro h
          cases h
          exact ⟨rfl, hKind⟩
        · rintro ⟨h, -⟩
          cases h
          rfl
      · rw [if_neg hKind]
        constructor
        · intro h
          cases h
        · rintro ⟨h, hSame⟩
          cases h
          exact absurd hSame hKind

theorem take_of_kind {kind : Kind} {t : Token} (h : t.kind = kind) (what : Expectation)
    (rest : List Token) :
    take kind what (t :: rest) = .ok (t, rest) :=
  take_eq_ok_iff.mpr ⟨rfl, h⟩

/-! ### Attributes -/

/-- A form of an attribute is read as that attribute, whatever follows it. -/
theorem oneAttribute_of_form {a : Attribute} {ts : List Token}
    (h : AttributeForm a (ts.map Token.lexeme)) (rest : List Token) :
    oneAttribute (ts ++ rest) = .ok (a, rest) := by
  generalize hForm : ts.map Token.lexeme = form at h
  cases h with
  | mk key colon value =>
      simp only [List.map_eq_cons_iff, List.map_eq_nil_iff, Token.lexeme_eq_iff] at hForm
      obtain ⟨k, _, rfl, ⟨hKey, rfl⟩, c, _, rfl, ⟨hColon, -⟩, v, _, rfl,
          ⟨hValue, rfl⟩, rfl⟩ := hForm
      simp only [oneAttribute, List.cons_append, List.nil_append, take_of_kind, hKey, hColon,
        hValue, ok_bind]
      rfl

theorem form_of_oneAttribute {a : Attribute} {tokens rest : List Token}
    (h : oneAttribute tokens = .ok (a, rest)) :
    ∃ ts, tokens = ts ++ rest ∧ AttributeForm a (ts.map Token.lexeme) := by
  simp only [oneAttribute, bind_eq_ok_iff, Prod.exists, take_eq_ok_iff] at h
  obtain ⟨k, _, ⟨rfl, hKey⟩, c, _, ⟨rfl, hColon⟩, v, _, ⟨rfl, hValue⟩, h⟩ := h
  cases h
  refine ⟨[k, c, v], rfl, ?_⟩
  simp only [List.map_cons, List.map_nil, Token.lexeme, hKey, hColon, hValue]
  exact .mk k.text c.text v.text

theorem moreAttributes_of_ne_comma {tokens : List Token} (h : next? tokens ≠ some .comma)
    (bound : Nat) :
    moreAttributes (bound + 1) tokens = .ok ([], tokens) := by
  rw [moreAttributes]
  rintro text position rest rfl
  exact h rfl

theorem moreAttributes_of_comma {comma : Token} (h : comma.kind = .comma) (bound : Nat)
    (rest : List Token) :
    moreAttributes (bound + 1) (comma :: rest) = (do
      let (first, rest) ← oneAttribute rest
      let (others, rest) ← moreAttributes bound rest
      return (first :: others, rest)) := by
  obtain ⟨kind, text, position⟩ := comma
  cases h
  rw [moreAttributes]

/-- A form of attributes behind commas is read as these attributes, up to a
token that is no comma. -/
theorem moreAttributes_of_form {others : List Attribute} {form : List Lexeme}
    (h : MoreForm others form) {ts : List Token} (hForm : ts.map Token.lexeme = form) {bound : Nat}
    (hBound : ts.length < bound) {rest : List Token} (hRest : next? rest ≠ some .comma) :
    moreAttributes bound (ts ++ rest) = .ok (others, rest) := by
  induction h generalizing ts bound with
  | nil =>
      cases List.map_eq_nil_iff.mp hForm
      obtain ⟨bound, rfl⟩ := Nat.exists_eq_add_of_lt hBound
      simpa using moreAttributes_of_ne_comma hRest _
  | cons comma first more ih =>
      simp only [List.map_eq_cons_iff, List.map_eq_append_iff, Token.lexeme_eq_iff] at hForm
      obtain ⟨c, _, rfl, ⟨hComma, -⟩, us, vs, rfl, rfl, hMore⟩ := hForm
      cases bound with
      | zero => cases hBound
      | succ bound =>
          have hLength : vs.length < bound := by
            simp only [List.length_cons, List.length_append] at hBound
            omega
          rw [List.cons_append, List.append_assoc, moreAttributes_of_comma hComma]
          simp only [oneAttribute_of_form first, ih hMore hLength, ok_bind]
          rfl

/-- What is read as attributes behind commas is a form of them. The induction
is on the bound, and a comma stands before every attribute. -/
theorem form_of_moreAttributes {bound : Nat} {others : List Attribute} {tokens rest : List Token}
    (h : moreAttributes bound tokens = .ok (others, rest)) :
    ∃ ts, tokens = ts ++ rest ∧ MoreForm others (ts.map Token.lexeme) := by
  induction bound generalizing others tokens with
  | zero => cases h
  | succ bound ih =>
      by_cases hNext : next? tokens = some .comma
      · obtain ⟨comma, tokens, rfl, hComma⟩ : ∃ t ts, tokens = t :: ts ∧
            t.kind = .comma := by
          cases tokens with
          | nil => cases hNext
          | cons t ts => exact ⟨t, ts, rfl, Option.some.inj hNext⟩
        rw [moreAttributes_of_comma hComma] at h
        simp only [bind_eq_ok_iff, Prod.exists] at h
        obtain ⟨a, _, hFirst, others, _, hMore, h⟩ := h
        cases h
        obtain ⟨us, rfl, hForm⟩ := form_of_oneAttribute hFirst
        obtain ⟨vs, rfl, hForms⟩ := ih hMore
        refine ⟨comma :: (us ++ vs), by simp, ?_⟩
        rw [List.map_cons, List.map_append, Token.lexeme, hComma]
        exact .cons comma.text hForm hForms
      · rw [moreAttributes_of_ne_comma hNext] at h
        cases h
        exact ⟨[], rfl, .nil⟩

/-- What can follow the head of a body: an item, or the mark that closes the
element. -/
def OpensContent (tokens : List Token) : Prop :=
  next? tokens ∈ [some Kind.showWord, some .define, some .hash, some .closingHash]

theorem atAttribute_eq_false {tokens : List Token} (h : OpensContent tokens) :
    atAttribute tokens = false := by
  unfold atAttribute
  split
  · rename_i a b c rest
    have hKind : a.kind ≠ .identifier := by
      intro hKind
      simp [OpensContent, next?, hKind] at h
    simp [hKind]
  · rfl

/-- The terminator after attributes is taken if it is there. -/
def afterAttributes (tokens : List Token) : List Token :=
  if next? tokens = some .terminator then tokens.drop 1 else tokens

/-- Attributes are read if one comes next, and otherwise there are none. -/
theorem attributes_eq (tokens : List Token) :
    attributes tokens = if atAttribute tokens then (do
        let (first, tokens) ← oneAttribute tokens
        let (others, tokens) ← moreAttributes (tokens.length + 1) tokens
        return (first :: others, afterAttributes tokens))
      else .ok ([], tokens) := by
  unfold attributes
  split
  · congr 1
    funext ⟨first, tokens⟩
    dsimp only
    congr 1
    funext ⟨others, tokens⟩
    cases tokens with
    | nil => rfl
    | cons t rest =>
        obtain ⟨kind, text, position⟩ := t
        cases kind <;> rfl
  · rfl

/-- A form of an attribute is recognised by its first three tokens. -/
theorem atAttribute_of_form {a : Attribute} {ts : List Token}
    (h : AttributeForm a (ts.map Token.lexeme)) (rest : List Token) :
    atAttribute (ts ++ rest) = true := by
  generalize hForm : ts.map Token.lexeme = form at h
  cases h with
  | mk key colon value =>
      simp only [List.map_eq_cons_iff, List.map_eq_nil_iff, Token.lexeme_eq_iff] at hForm
      obtain ⟨k, _, rfl, ⟨hKey, rfl⟩, c, _, rfl, ⟨hColon, -⟩, v, _, rfl,
          ⟨hValue, rfl⟩, rfl⟩ := hForm
      simp [atAttribute, hKey, hColon, hValue]

/-- Attributes are read up to what is no comma, and a terminator behind them is
taken with them. -/
theorem attributes_of_attributesForm {found : List Attribute} {ts : List Token}
    (h : AttributesForm found (ts.map Token.lexeme)) {rest : List Token}
    (hRest : next? rest ≠ some .comma) :
    attributes (ts ++ rest) = .ok (found, afterAttributes rest) := by
  generalize hForm : ts.map Token.lexeme = form at h
  cases h with
  | mk first more =>
      obtain ⟨us, vs, rfl, rfl, hMore⟩ := List.map_eq_append_iff.mp hForm
      have hLength : vs.length < (vs ++ rest).length + 1 := by
        rw [List.length_append]
        omega
      rw [attributes_eq, List.append_assoc, if_pos (atAttribute_of_form first _)]
      simp only [oneAttribute_of_form first,
        moreAttributes_of_form more hMore hLength hRest, ok_bind]
      rfl

theorem OpensContent.next?_ne {tokens : List Token} (h : OpensContent tokens) :
    next? tokens ≠ some .comma ∧ next? tokens ≠ some .terminator := by
  constructor <;> intro hNext <;> simp [OpensContent, hNext] at h

/-- The head of a body is read up to where its content opens. -/
theorem attributes_of_form {found : List Attribute} {ts : List Token}
    (h : HeadForm found (ts.map Token.lexeme)) {rest : List Token} (hRest : OpensContent rest) :
    attributes (ts ++ rest) = .ok (found, rest) := by
  generalize hForm : ts.map Token.lexeme = form at h
  cases h with
  | none =>
      cases List.map_eq_nil_iff.mp hForm
      rw [List.nil_append, attributes_eq, if_neg (by simp [atAttribute_eq_false hRest])]
  | plain all =>
      subst form
      rw [attributes_of_attributesForm all hRest.next?_ne.1, afterAttributes,
        if_neg hRest.next?_ne.2]
  | terminated all stop =>
      obtain ⟨us, vs, rfl, rfl, hStop⟩ := List.map_eq_append_iff.mp hForm
      simp only [List.map_eq_cons_iff, List.map_eq_nil_iff, Token.lexeme_eq_iff] at hStop
      obtain ⟨t, _, rfl, ⟨hKind, -⟩, rfl⟩ := hStop
      have hNext : next? ([t] ++ rest) = some .terminator := by simp [next?, hKind]
      rw [List.append_assoc, attributes_of_attributesForm all (by rw [hNext]; decide),
        afterAttributes, if_pos hNext]
      rfl

/-- What is read as attributes, with the terminator that may follow them, is a
form of the head of an element. -/
theorem form_of_attributes {found : List Attribute} {tokens rest : List Token}
    (h : attributes tokens = .ok (found, rest)) :
    ∃ ts, tokens = ts ++ rest ∧ HeadForm found (ts.map Token.lexeme) := by
  rw [attributes_eq] at h
  split at h
  · simp only [bind_eq_ok_iff, Prod.exists] at h
    obtain ⟨a, _, hFirst, others, last, hMore, h⟩ := h
    cases h
    obtain ⟨us, rfl, hForm⟩ := form_of_oneAttribute hFirst
    obtain ⟨vs, rfl, hForms⟩ := form_of_moreAttributes hMore
    have hAll : AttributesForm (a :: others) ((us ++ vs).map Token.lexeme) := by
      rw [List.map_append]
      exact .mk hForm hForms
    unfold afterAttributes
    split
    · rename_i hNext
      cases last with
      | nil => cases hNext
      | cons t rest =>
          refine ⟨us ++ vs ++ [t], by simp, ?_⟩
          have hKind : t.kind = .terminator := Option.some.inj hNext
          rw [List.map_append, List.map_cons, List.map_nil, Token.lexeme, hKind]
          exact .terminated hAll t.text
    · exact ⟨us ++ vs, by simp, .plain hAll⟩
  · cases h
    exact ⟨[], rfl, .none⟩

/-! ### Items -/

/-- A form of a text to show is read as that text, whatever follows it. -/
theorem shown_of_form {item : Item} {ts : List Token} (h : ShownForm item (ts.map Token.lexeme))
    (rest : List Token) : shown (ts ++ rest) = .ok (item, rest) := by
  generalize hForm : ts.map Token.lexeme = form at h
  cases h with
  | mk word message stop =>
      simp only [List.map_eq_cons_iff, List.map_eq_nil_iff, Token.lexeme_eq_iff] at hForm
      obtain ⟨w, _, rfl, -, m, _, rfl, ⟨hMessage, rfl⟩, s, _, rfl, ⟨hStop, -⟩, rfl⟩ :=
        hForm
      simp only [shown, List.cons_append, List.nil_append, List.drop_one, List.tail_cons,
        take_of_kind, hMessage, hStop, ok_bind]
      rfl

/-- What is read as a text to show is a form of it. -/
theorem form_of_shown {item : Item} {first : Token} {tokens rest : List Token}
    (hFirst : first.kind = .showWord) (h : shown (first :: tokens) = .ok (item, rest)) :
    ∃ ts, first :: tokens = ts ++ rest ∧ ShownForm item (ts.map Token.lexeme) := by
  simp only [shown, List.drop_one, List.tail_cons, bind_eq_ok_iff, Prod.exists, take_eq_ok_iff] at h
  obtain ⟨m, _, ⟨rfl, hMessage⟩, s, _, ⟨rfl, hStop⟩, h⟩ := h
  cases h
  refine ⟨[first, m, s], rfl, ?_⟩
  simp only [List.map_cons, List.map_nil, Token.lexeme, hFirst, hMessage, hStop]
  exact .mk first.text m.text s.text

/-- The value of a definition is one token, a name or a literal. -/
theorem definedValue_eq_ok_iff {tokens rest : List Token} {expression : Bytes} :
    definedValue tokens = .ok (expression, rest) ↔
      ∃ t, tokens = t :: rest ∧ ExpressionForm expression t.lexeme := by
  constructor
  · intro h
    cases tokens with
    | nil => cases h
    | cons t tokens =>
        rw [definedValue] at h
        split at h
        · rename_i hKind
          cases h
          refine ⟨t, rfl, ?_⟩
          rw [Token.lexeme]
          rcases hKind with hKind | hKind <;> rw [hKind]
          · exact .name t.text
          · exact .literal t.text
        · cases h
  · rintro ⟨t, rfl, hForm⟩
    generalize hLexeme : t.lexeme = lexeme at hForm
    cases hForm with
    | name =>
        obtain ⟨hKind, rfl⟩ := Token.lexeme_eq_iff.mp hLexeme
        rw [definedValue, if_pos (.inl hKind)]
    | literal =>
        obtain ⟨hKind, rfl⟩ := Token.lexeme_eq_iff.mp hLexeme
        rw [definedValue, if_pos (.inr hKind)]

/-- A form of a definition is read as that definition, whatever follows it. -/
theorem definition_of_form {item : Item} {ts : List Token}
    (h : DefinitionForm item (ts.map Token.lexeme)) (rest : List Token) :
    definition (ts ++ rest) = .ok (item, rest) := by
  generalize hForm : ts.map Token.lexeme = form at h
  cases h with
  | mk word name equals stop defined =>
      simp only [List.map_eq_cons_iff, List.map_eq_nil_iff, Token.lexeme_eq_iff] at hForm
      obtain ⟨w, _, rfl, -, n, _, rfl, ⟨hName, rfl⟩, e, _, rfl, ⟨hEquals, -⟩, v, _, rfl,
          rfl, s, _, rfl, ⟨hStop, -⟩, rfl⟩ := hForm
      have hValue := definedValue_eq_ok_iff.mpr ⟨v, Eq.refl (v :: s :: rest), defined⟩
      simp only [definition, List.cons_append, List.nil_append, List.drop_one, List.tail_cons,
        take_of_kind, hName, hEquals, hStop, hValue, ok_bind]
      rfl

/-- What is read as a definition is a form of it. -/
theorem form_of_definition {item : Item} {first : Token} {tokens rest : List Token}
    (hFirst : first.kind = .define) (h : definition (first :: tokens) = .ok (item, rest)) :
    ∃ ts, first :: tokens = ts ++ rest ∧ DefinitionForm item (ts.map Token.lexeme) := by
  simp only [definition, List.drop_one, List.tail_cons, bind_eq_ok_iff, Prod.exists, take_eq_ok_iff,
    definedValue_eq_ok_iff] at h
  obtain ⟨n, _, ⟨rfl, hName⟩, e, _, ⟨rfl, hEquals⟩, value, _, ⟨v, rfl, hValue⟩, s, _,
      ⟨rfl, hStop⟩, h⟩ := h
  cases h
  refine ⟨[first, n, e, v, s], rfl, ?_⟩
  have hForm := DefinitionForm.mk first.text n.text e.text s.text hValue
  simpa only [List.map_cons, List.map_nil, Token.lexeme, hFirst, hName, hEquals, hStop] using hForm

/-- One item of a content, by the kind of its first token. -/
def contentItem (bound : Nat) : Reader Item
  | [] => .error .exhausted
  | t :: rest =>
    match t.kind with
    | .showWord => shown (t :: rest)
    | .define => definition (t :: rest)
    | .hash => element bound (t :: rest)
    | _ => .error (.unexpectedToken t.text)

theorem items_of_closing {t : Token} (h : t.kind = .closingHash) (bound : Nat) (rest : List Token) :
    items (bound + 1) (t :: rest) = .ok ([], t :: rest) := by
  rw [items, if_pos h]

theorem items_of_not_closing {t : Token} (h : t.kind ≠ .closingHash) (bound : Nat)
    (rest : List Token) :
    items (bound + 1) (t :: rest) = (do
      let (first, rest) ← contentItem bound (t :: rest)
      let (others, rest) ← items bound rest
      return (first :: others, rest)) := by
  rw [items, if_neg h, contentItem]
  cases t.kind <;> rfl

/-! ### Elements -/

/-- A form of an item begins with one of three kinds of lexeme. -/
theorem exists_head_of_itemForm {item : Item} {form : List Lexeme} (h : ItemForm item form) :
    ∃ first others, form = first :: others ∧
      first.kind ∈ [Kind.showWord, .define, .hash] := by
  cases h with
  | shown h =>
      cases h
      exact ⟨_, _, rfl, by simp⟩
  | definition h =>
      cases h
      exact ⟨_, _, rfl, by simp⟩
  | element h =>
      cases h
      exact ⟨_, _, rfl, by simp⟩

theorem exists_token_of_map {ts : List Token} {first : Lexeme} {others : List Lexeme}
    (h : ts.map Token.lexeme = first :: others) :
    ∃ t us, ts = t :: us ∧ t.kind = first.kind := by
  obtain ⟨t, us, rfl, rfl, -⟩ := List.map_eq_cons_iff.mp h
  exact ⟨t, us, rfl, rfl⟩

/-- A first token that begins an item. -/
theorem exists_head_of_map {item : Item} {ts : List Token}
    (h : ItemForm item (ts.map Token.lexeme)) :
    ∃ first others, ts = first :: others ∧ first.kind ∈ [Kind.showWord, .define, .hash] := by
  obtain ⟨lexeme, _, hForm, hKind⟩ := exists_head_of_itemForm h
  obtain ⟨first, others, rfl, hSame⟩ := exists_token_of_map hForm
  exact ⟨first, others, rfl, hSame ▸ hKind⟩

/-- A form of items, with the closing mark behind it, opens the content of an
element. -/
theorem opensContent_of_form {found : List Item} {ts : List Token}
    (h : ItemsForm found (ts.map Token.lexeme)) {rest : List Token}
    (hRest : next? rest = some .closingHash) : OpensContent (ts ++ rest) := by
  generalize hForm : ts.map Token.lexeme = form at h
  cases h with
  | nil =>
      cases List.map_eq_nil_iff.mp hForm
      simp [OpensContent, hRest]
  | cons first more =>
      obtain ⟨us, vs, rfl, rfl, -⟩ := List.map_eq_append_iff.mp hForm
      obtain ⟨t, others, rfl, hKind⟩ := exists_head_of_map first
      simp only [List.mem_cons, List.not_mem_nil, or_false] at hKind
      rcases hKind with hKind | hKind | hKind <;> simp [OpensContent, next?, hKind]

/-- A form of an item is read as that item if this is so for elements, whatever
follows it. The first token tells which of the three forms it is. -/
theorem contentItem_of_form {bound : Nat}
    (hElement : ∀ {item : Item} {ts : List Token}, ElementForm item (ts.map Token.lexeme) →
      ts.length ≤ bound →
      ∀ rest, element bound (ts ++ rest) = .ok (item, rest))
    {item : Item} {ts : List Token} (h : ItemForm item (ts.map Token.lexeme))
    (hBound : ts.length ≤ bound) (rest : List Token) :
    contentItem bound (ts ++ rest) = .ok (item, rest) := by
  generalize hForm : ts.map Token.lexeme = form at h
  cases h with
  | shown h =>
      have hRead := shown_of_form (hForm ▸ h) rest
      cases h
      obtain ⟨t, _, rfl, hKind⟩ := exists_token_of_map hForm
      rw [List.cons_append, contentItem, hKind]
      exact hRead
  | definition h =>
      have hRead := definition_of_form (hForm ▸ h) rest
      cases h
      obtain ⟨t, _, rfl, hKind⟩ := exists_token_of_map hForm
      rw [List.cons_append, contentItem, hKind]
      exact hRead
  | element h =>
      have hRead := hElement (hForm ▸ h) hBound rest
      cases h
      obtain ⟨t, _, rfl, hKind⟩ := exists_token_of_map hForm
      rw [List.cons_append, contentItem, hKind]
      exact hRead

/-- A form is read as what it is a form of. An element may stand before
anything, items only before the mark that closes them. The two statements are
proved together, by induction on the bound: every step from an item to its
parts or to the next item leaves out at least one token. -/
theorem reading_of_form (bound : Nat) :
    (∀ {item : Item} {ts : List Token}, ElementForm item (ts.map Token.lexeme) →
      ts.length ≤ bound →
      ∀ rest, element bound (ts ++ rest) = .ok (item, rest)) ∧
    (∀ {found : List Item} {ts : List Token}, ItemsForm found (ts.map Token.lexeme) →
      ts.length < bound →
      ∀ rest, next? rest = some .closingHash →
        items bound (ts ++ rest) = .ok (found, rest)) := by
  induction bound with
  | zero =>
      constructor
      · intro item ts h hBound
        cases List.length_eq_zero_iff.mp (Nat.le_zero.mp hBound)
        cases h
      · intro found ts h hBound
        cases hBound
  | succ bound ih =>
      obtain ⟨ihElement, ihItems⟩ := ih
      constructor
      · intro item ts h hBound rest
        generalize hForm : ts.map Token.lexeme = form at h
        cases h with
        | mk hash tag closing head inside =>
            simp only [List.map_eq_cons_iff, List.map_eq_append_iff, List.map_eq_nil_iff,
              Token.lexeme_eq_iff]
              at hForm
            obtain ⟨h, _, rfl, ⟨hHash, -⟩, o, _, rfl, ⟨hOpening, hTag⟩, fs, _, rfl, rfl,
                is, _, rfl, rfl, c, _, rfl, ⟨hClosing, -⟩, e, _, rfl, ⟨hName, hSame⟩,
                rfl⟩ := hForm
            have hLength : is.length < bound := by
              simp only [List.length_cons, List.length_append] at hBound
              omega
            have hNext : next? (c :: e :: rest) = some .closingHash := by simp [next?, hClosing]
            have hItems := ihItems inside hLength _ hNext
            have hHead := attributes_of_form head (opensContent_of_form inside hNext)
            have hTokens : h :: o :: (fs ++ (is ++ [c, e])) ++ rest =
                h :: o :: (fs ++ (is ++ c :: e :: rest)) := by simp
            rw [hTokens, element]
            simp only [take_of_kind, hHash, hOpening, hHead, hItems, hClosing, hName, ok_bind,
              hTag, hSame, if_true]
            rfl
      · intro found ts h hBound rest hRest
        generalize hForm : ts.map Token.lexeme = form at h
        cases h with
        | nil =>
            cases List.map_eq_nil_iff.mp hForm
            cases rest with
            | nil => cases hRest
            | cons t rest => exact items_of_closing (Option.some.inj hRest) bound rest
        | cons first more =>
            obtain ⟨us, vs, rfl, rfl, rfl⟩ := List.map_eq_append_iff.mp hForm
            obtain ⟨t, others, rfl, hKind⟩ := exists_head_of_map first
            rw [List.length_append, List.length_cons] at hBound
            have hLength : (t :: others).length ≤ bound := by
              rw [List.length_cons]
              omega
            have hItem := contentItem_of_form ihElement first hLength (vs ++ rest)
            have hItems := ihItems more (by omega) rest hRest
            have hNot : t.kind ≠ .closingHash := fun hClosing => by simp [hClosing] at hKind
            rw [List.append_assoc, List.cons_append,
              items_of_not_closing hNot, ← List.cons_append]
            simp only [hItem, hItems, ok_bind]
            rfl

/-- What is read as an item is a form of it, if this is so for elements. -/
theorem form_of_contentItem {bound : Nat}
    (hElement : ∀ {item : Item} {tokens rest : List Token},
      element bound tokens = .ok (item, rest) →
      ∃ ts, tokens = ts ++ rest ∧ ElementForm item (ts.map Token.lexeme))
    {item : Item} {tokens rest : List Token} (h : contentItem bound tokens = .ok (item, rest)) :
    ∃ ts, tokens = ts ++ rest ∧ ItemForm item (ts.map Token.lexeme) := by
  cases tokens with
  | nil => cases h
  | cons t tokens =>
      rw [contentItem] at h
      split at h
      · rename_i hKind
        obtain ⟨ts, hTokens, hForm⟩ := form_of_shown hKind h
        exact ⟨ts, hTokens, .shown hForm⟩
      · rename_i hKind
        obtain ⟨ts, hTokens, hForm⟩ := form_of_definition hKind h
        exact ⟨ts, hTokens, .definition hForm⟩
      · obtain ⟨ts, hTokens, hForm⟩ := hElement h
        exact ⟨ts, hTokens, .element hForm⟩
      · cases h

/-- What is read stands behind a form of it. The two statements are proved
together, by induction on the bound. An element is closed by its own name,
which its form says, too. -/
theorem form_of_reading (bound : Nat) :
    (∀ {item : Item} {tokens rest : List Token}, element bound tokens = .ok (item, rest) →
      ∃ ts, tokens = ts ++ rest ∧ ElementForm item (ts.map Token.lexeme)) ∧
    (∀ {found : List Item} {tokens rest : List Token}, items bound tokens = .ok (found, rest) →
      ∃ ts, tokens = ts ++ rest ∧ ItemsForm found (ts.map Token.lexeme)) := by
  induction bound with
  | zero =>
      constructor
      · intro item tokens rest h
        cases h
      · intro found tokens rest h
        cases h
  | succ bound ih =>
      obtain ⟨ihElement, ihItems⟩ := ih
      constructor
      · intro item tokens rest h
        rw [element] at h
        simp only [bind_eq_ok_iff, Prod.exists, take_eq_ok_iff] at h
        obtain ⟨hash, _, ⟨rfl, hHash⟩, opening, _, ⟨rfl, hOpening⟩, attributes, _,
            hAttributes, content, _, hItems, mark, _, ⟨rfl, hMark⟩, closing, _,
            ⟨rfl, hClosing⟩, h⟩ := h
        split at h
        · rename_i hSame
          cases h
          obtain ⟨fs, rfl, hHead⟩ := form_of_attributes hAttributes
          obtain ⟨is, rfl, hInside⟩ := ihItems hItems
          refine ⟨hash :: opening :: (fs ++ (is ++ [mark, closing])), by simp, ?_⟩
          have hForm := ElementForm.mk hash.text opening.text mark.text hHead hInside
          simpa [Token.lexeme, hHash, hOpening, hMark, hClosing, hSame] using hForm
        · cases h
      · intro found tokens rest h
        cases tokens with
        | nil => cases h
        | cons t tokens =>
            by_cases hKind : t.kind = .closingHash
            · rw [items_of_closing hKind] at h
              cases h
              exact ⟨[], rfl, .nil⟩
            · rw [items_of_not_closing hKind] at h
              simp only [bind_eq_ok_iff, Prod.exists] at h
              obtain ⟨item, _, hItem, others, _, hItems, h⟩ := h
              cases h
              obtain ⟨us, hTokens, hFirst⟩ := form_of_contentItem ihElement hItem
              obtain ⟨vs, rfl, hMore⟩ := ihItems hItems
              refine ⟨us ++ vs, by rw [hTokens, List.append_assoc], ?_⟩
              rw [List.map_append]
              exact .cons hFirst hMore

/-- A document is what a form at the front of its tokens means. -/
theorem document_eq_ok_iff {tokens rest : List Token} {item : Item} :
    document tokens = .ok (item, rest) ↔
      ∃ ts, tokens = ts ++ rest ∧ ElementForm item (ts.map Token.lexeme) := by
  constructor
  · exact (form_of_reading _).1
  · rintro ⟨ts, rfl, hForm⟩
    have hLength : ts.length ≤ (ts ++ rest).length + 1 := by
      rw [List.length_append]
      omega
    exact (reading_of_form _).1 hForm hLength rest

end Reader

end PageScript.Markup
