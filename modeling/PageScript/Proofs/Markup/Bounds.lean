import PageScript.Proofs.Markup.Indexed
import PageScript.Proofs.Markup.Lossless

/-! A reading by an index follows the reading of the list, step by step, and
stays inside its tokens. Main statement: if the last token is the end, a
reading of an element comes to an end, with the index inside the tokens
wherever it was used, and with what the list gives. -/
namespace PageScript.Markup.Indexed

section

variable {α β : Type} {tokens : List Token} {here there : Nat} {t : Token}

/-! ### Agreement with the reading of a list -/

/-- A reading that ended agrees with a reading of the tokens from its index on:
it has the same result and leaves the same tokens, or it is refused for the
same fault. The index has stayed inside the tokens, and is as `post` says if
there is a result. -/
inductive Agrees (tokens : List Token) (post : Nat → Prop) :
    Option (Except Stop α × State) → Except Fault (α × List Token) → Prop where
  | returned {a : α} {s : State} {here : Nat} (inside : s.At tokens here) (holds : post here) :
      Agrees tokens post (some (.ok a, s)) (.ok (a, tokens.drop here))
  | refused {fault : Fault} {s : State} {here : Nat} (inside : s.At tokens here)
      (cause : fault ≠ .exhausted) :
      Agrees tokens post (some (.error (.refused fault), s)) (.error fault)

/-- From here the reading agrees with the reading of the list. -/
def Follows (tokens : List Token) (here : Nat) (post : Nat → Prop) (reading : Indexed α)
    (read : Except Fault (α × List Token)) : Prop :=
  ∀ s : State, s.At tokens here → Agrees tokens post (run reading s) read

variable {post post' : Nat → Prop}

theorem follows_pure (a : α) (hPost : post here) :
    Follows tokens here post (pure a) (pure (a, tokens.drop here)) :=
  fun _ h => .returned h hPost

theorem follows_refuse {fault : Fault} (hCause : fault ≠ .exhausted) :
    Follows tokens here post (throw (.refused fault) : Indexed α) (throw fault) :=
  fun _ h => .refused h hCause

theorem Follows.mono {reading : Indexed α} {read : Except Fault (α × List Token)}
    (h : Follows tokens here post reading read) (hPost : ∀ there, post there → post' there) :
    Follows tokens here post' reading read := by
  intro s hAt
  have hAgrees := h s hAt
  generalize run reading s = result at hAgrees
  cases hAgrees with
  | returned inside holds => exact .returned inside (hPost _ holds)
  | refused inside cause => exact .refused inside cause

/-- Two readings in a row follow two readings of the list in a row. -/
theorem Follows.bind {first : Indexed α} {next : α → Indexed β}
    {read : Except Fault (α × List Token)}
    {readNext : α × List Token → Except Fault (β × List Token)}
    (hFirst : Follows tokens here post first read)
    (hNext : ∀ a there, there < tokens.length → post there →
      Follows tokens there post' (next a) (readNext (a, tokens.drop there))) :
    Follows tokens here post' (first >>= next) (read >>= readNext) := by
  intro s h
  have hAgrees := hFirst s h
  generalize hRun : run first s = result at hAgrees
  cases hAgrees with
  | returned inside holds =>
      rw [run_bind_of_ok hRun]
      exact hNext _ _ inside.here_lt holds _ inside
  | refused inside cause =>
      rw [run_bind_of_error hRun]
      exact .refused inside cause

/-- What a step gives is known, so the list need not be read for it. -/
theorem Gives.follows {first : Indexed α} {next : α → Indexed β} {a : α}
    {read : Except Fault (β × List Token)} (hFirst : Gives tokens here first a there)
    (hNext : Follows tokens there post (next a) read) :
    Follows tokens here post (first >>= next) read := by
  intro s h
  obtain ⟨s', hRun, h'⟩ := hFirst s h
  rw [run_bind_of_ok hRun]
  exact hNext s' h'

/-- A reading that is known to give a value agrees with a list that gives it,
too. -/
theorem Gives.follows_last {reading : Indexed α} {a : α} (h : Gives tokens here reading a there)
    (hPost : post there) : Follows tokens here post reading (.ok (a, tokens.drop there)) := by
  intro s hAt
  obtain ⟨s', hRun, h'⟩ := h s hAt
  rw [hRun]
  exact .returned h' hPost

section

variable (hEnded : Ended tokens) (hHere : here < tokens.length)

include hEnded hHere

/-- To consume a token of a kind takes one token, in both readings, and stops
both for the same reason. A token that is consumed is not the end, so there is
one behind it. -/
theorem follows_consume {kind : Kind} (hFinish : kind ≠ .finish) (what : Expectation) :
    Follows tokens here (· = here + 1) (consume tokens kind what)
      (Reader.take kind what (tokens.drop here)) := by
  obtain ⟨t, hNext⟩ := exists_next hHere
  refine (gives_check hNext hFinish).follows ?_
  rw [drop_of_next hNext, Reader.take]
  by_cases hKind : t.kind = kind
  · rw [if_pos (beq_iff_eq.mpr hKind), if_pos hKind]
    exact (gives_advance hEnded hNext (hKind ▸ hFinish)).follows_last rfl
  · rw [if_neg (mt beq_iff_eq.mp hKind), if_neg hKind]
    exact (gives_peek hNext).follows (follows_refuse (by simp))

theorem follows_oneAttribute :
    Follows tokens here (· = here + 3) (oneAttribute tokens)
      (Reader.oneAttribute (tokens.drop here)) := by
  refine (follows_consume hEnded hHere (by decide) _).bind ?_
  rintro key _ hHere rfl
  refine (follows_consume hEnded hHere (by decide) _).bind ?_
  rintro _ _ hHere rfl
  refine (follows_consume hEnded hHere (by decide) _).bind ?_
  rintro value _ hHere rfl
  exact follows_pure _ rfl

end

section

variable (hEnded : Ended tokens)

include hEnded

/-- Attributes behind commas are read alike. Neither bound is used up, since
each attribute takes tokens. -/
theorem follows_moreAttributes {bound limit : Nat} (hHere : here < tokens.length)
    (hBound : tokens.length ≤ here + bound) (hLimit : tokens.length ≤ here + limit) :
    Follows tokens here (here ≤ ·) (moreAttributes tokens bound)
      (Reader.moreAttributes limit (tokens.drop here)) := by
  induction bound generalizing here limit with
  | zero => exact absurd hHere (Nat.not_lt.mpr hBound)
  | succ bound ih =>
      obtain ⟨less, rfl⟩ : ∃ less, limit = less + 1 := ⟨limit - 1, by omega⟩
      obtain ⟨t, hNext⟩ := exists_next hHere
      rw [drop_of_next hNext]
      by_cases hComma : t.kind = .comma
      · have hThere := hEnded.lt_of_next hNext (by rw [hComma]; decide)
        refine (gives_accept hEnded hNext (by decide) hComma).follows ?_
        rw [if_pos rfl, Reader.moreAttributes_of_comma hComma]
        refine (follows_oneAttribute hEnded hThere).bind ?_
        rintro first _ hBehind rfl
        refine (ih hBehind (by omega) (by omega)).bind ?_
        intro others there _ hLater
        exact follows_pure _ (by omega)
      · refine (gives_not_accept hNext (by decide) hComma).follows ?_
        rw [if_neg Bool.false_ne_true,
          Reader.moreAttributes_of_ne_comma (by simpa [Reader.next?] using hComma), ← drop_of_next
          hNext]
        exact follows_pure [] (Nat.le_refl here)

variable (hHere : here < tokens.length)

include hHere

/-- The terminator after attributes is stepped over if it is there. -/
theorem exists_gives_terminator :
    ∃ taken there, Gives tokens here (accept tokens .terminator) taken there ∧
    here ≤ there ∧ Reader.afterAttributes (tokens.drop here) = tokens.drop there := by
  obtain ⟨t, hNext⟩ := exists_next hHere
  by_cases hStop : t.kind = .terminator
  · refine ⟨true, here + 1, gives_accept hEnded hNext (by decide) hStop, Nat.le_succ here, ?_⟩
    simp [Reader.afterAttributes, Reader.next?, drop_of_next hNext, hStop]
  · refine ⟨false, here, gives_not_accept hNext (by decide) hStop, Nat.le_refl here, ?_⟩
    simp [Reader.afterAttributes, Reader.next?, drop_of_next hNext, hStop]

/-- Attributes are read alike, with a bound that exceeds the tokens ahead. -/
theorem follows_attributes {bound : Nat} (hBound : tokens.length ≤ here + bound) :
    Follows tokens here (here ≤ ·) (attributes tokens bound)
      (Reader.attributes (tokens.drop here)) := by
  rw [Reader.attributes_eq]
  refine (gives_atAttribute hHere).follows ?_
  cases Reader.atAttribute (tokens.drop here) with
  | false => exact follows_pure [] (Nat.le_refl here)
  | true =>
      refine (follows_oneAttribute hEnded hHere).bind ?_
      rintro first _ hBehind rfl
      have hLimit : tokens.length ≤ here + 3 + ((tokens.drop (here + 3)).length + 1) := by
        rw [List.length_drop]
        omega
      refine (follows_moreAttributes hEnded hBehind (by omega) hLimit).bind ?_
      intro others there hThere hLater
      obtain ⟨taken, last, hGives, hLast, hAfter⟩ := exists_gives_terminator hEnded hThere
      refine hGives.follows ?_
      dsimp only
      rw [hAfter]
      exact follows_pure _ (by omega)

end

section

variable (hEnded : Ended tokens) (hNext : tokens[here]? = some t)

include hEnded hNext

theorem follows_shown (hKind : t.kind = .showWord) :
    Follows tokens here (· = here + 3) (shown tokens) (Reader.shown (tokens.drop here)) := by
  have hThere := hEnded.lt_of_next hNext (by rw [hKind]; decide)
  rw [Reader.shown, List.drop_drop]
  refine (gives_consumeWord hEnded hNext (by decide) hKind).follows ?_
  refine (follows_consume hEnded hThere (by decide) _).bind ?_
  rintro message _ hThere rfl
  refine (follows_consume hEnded hThere (by decide) _).bind ?_
  rintro _ _ _ rfl
  exact follows_pure _ rfl

/-- A definition takes five tokens, in both readings. The kind of the value is
looked at before it is taken, so the two readings are compared there once
more. -/
theorem follows_definition (hKind : t.kind = .define) :
    Follows tokens here (· = here + 5) (definition tokens)
      (Reader.definition (tokens.drop here)) := by
  have hThere := hEnded.lt_of_next hNext (by rw [hKind]; decide)
  rw [Reader.definition, List.drop_drop]
  refine (gives_consumeWord hEnded hNext (by decide) hKind).follows ?_
  refine (follows_consume hEnded hThere (by decide) _).bind ?_
  rintro name _ hThere rfl
  refine (follows_consume hEnded hThere (by decide) _).bind ?_
  rintro _ _ hThere rfl
  obtain ⟨value, hValue⟩ := exists_next hThere
  refine (gives_peek hValue).follows ?_
  dsimp only
  rw [drop_of_next hValue, Reader.definedValue]
  by_cases hSort : value.kind = .identifier ∨ value.kind = .text
  · have hFinish : value.kind ≠ .finish := by
      rcases hSort with hSort | hSort <;> rw [hSort] <;> decide
    rw [if_pos hSort, if_pos hSort]
    refine (gives_advance hEnded hValue hFinish).follows ?_
    refine (follows_consume hEnded (hEnded.lt_of_next hValue hFinish) (by decide) _).bind ?_
    rintro _ _ _ rfl
    exact follows_pure _ rfl
  · rw [if_neg hSort, if_neg hSort]
    exact follows_refuse (by simp)

/-- An item is read alike if an element is, which may be the item. The three
words are checked in turn, by the kind of the same token. -/
theorem follows_anyItem {bound : Nat} {element : Indexed Item}
    (hElement : Follows tokens here (here + 4 ≤ ·) element
      (Reader.element bound (tokens.drop here))) :
    Follows tokens here (here + 3 ≤ ·) (anyItem tokens element)
      (Reader.contentItem bound (tokens.drop here)) := by
  rw [drop_of_next hNext, Reader.contentItem, ← drop_of_next hNext]
  refine (gives_check hNext (by decide)).follows ?_
  by_cases hShow : t.kind = .showWord
  · rw [if_pos (beq_iff_eq.mpr hShow), hShow]
    exact (follows_shown hEnded hNext hShow).mono fun there hThere => by omega
  rw [if_neg (mt beq_iff_eq.mp hShow)]
  refine (gives_check hNext (by decide)).follows ?_
  by_cases hDefine : t.kind = .define
  · rw [if_pos (beq_iff_eq.mpr hDefine), hDefine]
    exact (follows_definition hEnded hNext hDefine).mono fun there hThere => by omega
  rw [if_neg (mt beq_iff_eq.mp hDefine)]
  refine (gives_check hNext (by decide)).follows ?_
  by_cases hHash : t.kind = .hash
  · rw [if_pos (beq_iff_eq.mpr hHash), hHash]
    exact hElement.mono fun there hThere => by omega
  rw [if_neg (mt beq_iff_eq.mp hHash)]
  split
  · exact absurd (by assumption) hShow
  · exact absurd (by assumption) hDefine
  · exact absurd (by assumption) hHash
  · exact (gives_peek hNext).follows (follows_refuse (by simp))

/-- An item takes three tokens at least, so what is recorded of it is right. -/
theorem follows_contentItem {bound : Nat} {element : Indexed Item}
    (hElement : Follows tokens here (here + 4 ≤ ·) element
      (Reader.element bound (tokens.drop here))) :
    Follows tokens here (here + 3 ≤ ·) (contentItem tokens element)
      (Reader.contentItem bound (tokens.drop here)) := by
  refine gives_index.follows ?_
  rw [← bind_pure (Reader.contentItem bound (tokens.drop here))]
  refine (follows_anyItem hEnded hNext hElement).bind ?_
  intro item there _ hThere
  have hItem : (Event.item here there).Within tokens.length := Nat.le_of_succ_le hThere
  exact gives_index.follows ((gives_record _ hItem).follows (follows_pure item hThere))

end

/-! ### Elements -/

/-- The head of an element and its items. -/
def readBody (bound : Nat) : Reader (List Attribute × List Item) := fun tokens => do
  let (attributes, tokens) ← Reader.attributes tokens
  let (content, tokens) ← Reader.items bound tokens
  return ((attributes, content), tokens)

/-- The reading of an element in one piece: a tag, a body, and a closing tag
with the same name. -/
theorem element_eq_readBody (bound : Nat) (ts : List Token) :
    Reader.element (bound + 1) ts = (do
      let (_, ts) ← Reader.take .hash .hash ts
      let (opening, ts) ← Reader.take .identifier .tag ts
      let ((attributes, content), ts) ← readBody bound ts
      let (_, ts) ← Reader.take .closingHash .closingHash ts
      let (closing, ts) ← Reader.take .identifier .closingTag ts
      if closing.text = opening.text then return (.element opening.text attributes content, ts)
      else throw (.mismatched closing.text opening.text)) := by
  simp only [Reader.element, readBody, bind_assoc, pure_bind]

section

variable (hEnded : Ended tokens)

include hEnded

/-- Items are read alike if an element is from here, and items are from every
later index. Before the closing mark both readings stop; otherwise an item
takes tokens, so the index moves on. -/
theorem follows_items {bound : Nat} (hHere : here < tokens.length)
    (hElement :
      Follows tokens here (here + 4 ≤ ·) (element tokens bound)
      (Reader.element bound (tokens.drop here)))
    (hItems : ∀ {there}, there < tokens.length → here < there →
      Follows tokens there (there ≤ ·) (items tokens bound)
        (Reader.items bound (tokens.drop there))) :
    Follows tokens here (here ≤ ·) (items tokens (bound + 1))
      (Reader.items (bound + 1) (tokens.drop here)) := by
  obtain ⟨t, hNext⟩ := exists_next hHere
  rw [drop_of_next hNext]
  refine (gives_atBodyEnd hNext).follows ?_
  by_cases hClosing : t.kind = .closingHash
  · rw [if_pos (beq_iff_eq.mpr hClosing), Reader.items_of_closing hClosing, ← drop_of_next hNext]
    exact follows_pure [] (Nat.le_refl here)
  · rw [if_neg (mt beq_iff_eq.mp hClosing),
      Reader.items_of_not_closing hClosing, ← drop_of_next hNext]
    refine (follows_contentItem hEnded hNext hElement).bind ?_
    intro first there hThere hFirst
    refine (hItems hThere (by omega)).bind ?_
    intro others last _ hOthers
    exact follows_pure _ (by omega)

/-- The head of an element and its items are read alike. Where the element is
closed at once, the list is read on, but there is nothing to read. -/
theorem follows_body {bound : Nat} {items : Indexed (List Item)} (hHere : here < tokens.length)
    (hBound : tokens.length ≤ here + (bound + 1))
    (hItems : ∀ {there}, there < tokens.length → here ≤ there →
      Follows tokens there (there ≤ ·) items (Reader.items (bound + 1) (tokens.drop there))) :
    Follows tokens here (here ≤ ·) (body tokens (bound + 1) items)
      (readBody (bound + 1) (tokens.drop here)) := by
  obtain ⟨t, hNext⟩ := exists_next hHere
  refine (gives_atBodyEnd hNext).follows ?_
  by_cases hClosing : t.kind = .closingHash
  · have hOpens : Reader.OpensContent (tokens.drop here) := by
      simp [Reader.OpensContent, Reader.next?, drop_of_next hNext, hClosing]
    have hHead : Reader.attributes (tokens.drop here) = .ok ([], tokens.drop here) := by
      rw [Reader.attributes_eq, Reader.atAttribute_eq_false hOpens, if_neg Bool.false_ne_true]
    have hNone : Reader.items (bound + 1) (tokens.drop here) = .ok ([], tokens.drop here) := by
      rw [drop_of_next hNext, Reader.items_of_closing hClosing]
    rw [if_pos (beq_iff_eq.mpr hClosing), readBody, hHead, ok_bind]
    dsimp only
    rw [hNone, ok_bind]
    exact follows_pure _ (Nat.le_refl here)
  · rw [if_neg (mt beq_iff_eq.mp hClosing)]
    refine (follows_attributes hEnded hHere hBound).bind ?_
    intro attributes there hThere hHead
    refine (hItems hThere hHead).bind ?_
    intro content last _ hContent
    exact follows_pure _ (by omega)

/-- An element is read alike if the items in it are, with one step less. Two
tokens have been taken and there are others, so some of the bound is left for
the items. -/
theorem follows_element {bound : Nat} (hHere : here < tokens.length)
    (hBound : tokens.length ≤ here + (bound + 1))
    (hItems : ∀ {there}, there < tokens.length → tokens.length < there + bound →
      Follows tokens there (there ≤ ·) (items tokens bound)
        (Reader.items bound (tokens.drop there))) :
    Follows tokens here (here + 4 ≤ ·) (element tokens (bound + 1))
      (Reader.element (bound + 1) (tokens.drop here)) := by
  rw [element_eq_readBody]
  refine (follows_consume hEnded hHere (by decide) _).bind ?_
  rintro _ _ hThere rfl
  refine (follows_consume hEnded hThere (by decide) _).bind ?_
  rintro opening _ hThere rfl
  obtain ⟨less, rfl⟩ : ∃ less, bound = less + 1 := ⟨bound - 1, by omega⟩
  refine (follows_body hEnded hThere (by omega) fun hLess hLater => hItems hLess (by omega)).bind ?_
  rintro ⟨attributes, content⟩ there hThere hBody
  refine (follows_consume hEnded hThere (by decide) _).bind ?_
  rintro _ _ hThere rfl
  refine (follows_consume hEnded hThere (by decide) _).bind ?_
  rintro closing _ _ rfl
  by_cases hSame : closing.text = opening.text
  · simp only [if_pos hSame]
    exact follows_pure _ (by omega)
  · simp only [if_neg hSame]
    exact follows_refuse (by simp)

/-- Elements and items are read alike by an index and from the list, if the
bound covers the tokens that are left. The two statements are proved together,
by induction on the bound: an element hands its items two tokens less, and
items hand their first element all that they have, which is why they need one
more. -/
theorem follows_reading (bound : Nat) :
    (∀ {here}, here < tokens.length → tokens.length ≤ here + bound →
      Follows tokens here (here + 4 ≤ ·) (element tokens bound)
        (Reader.element bound (tokens.drop here))) ∧
    (∀ {here}, here < tokens.length → tokens.length < here + bound →
      Follows tokens here (here ≤ ·) (items tokens bound)
        (Reader.items bound (tokens.drop here))) := by
  induction bound with
  | zero =>
      constructor
      · intro here hHere hBound
        omega
      · intro here hHere hBound
        omega
  | succ bound ih =>
      obtain ⟨ihElement, ihItems⟩ := ih
      constructor
      · intro here hHere hBound
        exact follows_element hEnded hHere hBound ihItems
      · intro here hHere hBound
        refine follows_items hEnded hHere (ihElement hHere (by omega)) fun hThere hLater => ?_
        exact ihItems hThere (by omega)

end

end

/-- What a source is taken apart into has its end for its last token. -/
theorem ended_of_tokens {source : Bytes} {tokens : List Token}
    (h : Lexer.tokens source = .ok tokens) :
    Ended tokens := by
  obtain ⟨before, lexed, rest, rfl, hCovers, hEnd⟩ := Lexer.exists_covers source 0
  rw [Nat.zero_add] at hEnd
  obtain rfl | ⟨fault, hHalts⟩ := hEnd
  · rw [List.append_nil, Lexer.tokens_of_covers hCovers, List.map_append] at h
    cases h
    exact ⟨lexed.map Lexer.Located.token, _, rfl, rfl⟩
  · rw [Lexer.tokens_of_halts hCovers hHalts] at h
    cases h

/-- A reading by an index that begins somewhere in tokens whose last one is the
end, such as the tokens of any source, comes to an end: no bound above the
number of tokens makes a difference. On its way the index is inside the tokens
wherever it is used, every token is fetched from a place inside, and every item
takes two tokens at least. What comes of it is what comes of reading the list:
the same element with the same tokens left, or the same fault, which is never
that the tokens have run out. -/
theorem element_stays_inside {tokens : List Token}
    (hTokens : (∃ source, Lexer.tokens source = .ok tokens) ∨ Ended tokens) :
    0 < tokens.length ∧ ∀ start < tokens.length, ∃ outcome s,
      (∀ bound > tokens.length, run (element tokens bound) ⟨start, []⟩ =
        some (outcome, s)) ∧
      s.index < tokens.length ∧
      (∀ purpose i, .used purpose i ∈ s.events → i < tokens.length) ∧
      (∀ place, .fetched place ∈ s.events → place < tokens.length) ∧
      (∀ first behind, .item first behind ∈ s.events → first + 2 ≤ behind) ∧
      ((∃ item, outcome = .ok item ∧
        Reader.document (tokens.drop start) = .ok (item, tokens.drop s.index)) ∨
        ∃ fault, fault ≠ .exhausted ∧ outcome = .error (.refused fault) ∧
          Reader.document (tokens.drop start) = .error fault) := by
  have hEnded : Ended tokens := by
    obtain ⟨source, hSource⟩ | hEnded := hTokens
    · exact ended_of_tokens hSource
    · exact hEnded
  refine ⟨hEnded.length_pos, fun start hStart => ?_⟩
  have hStarts : State.At tokens start ⟨start, []⟩ := ⟨rfl, hStart, List.forall_mem_nil _⟩
  have hAgrees : Agrees tokens _ _ (Reader.document (tokens.drop start)) :=
    (follows_reading hEnded _).1 hStart (by rw [List.length_drop]; omega) _ hStarts
  have hHigher : ∀ result, run (element tokens ((tokens.drop start).length + 1)) ⟨start, []⟩ =
      some result →
      ∀ bound > tokens.length, run (element tokens bound) ⟨start, []⟩ = some result := by
    intro result hRun bound hBound
    have hRaised : (tokens.drop start).length + 1 ≤ bound := by
      rw [List.length_drop]
      omega
    exact extends_element hRaised _ _ hRun
  generalize run (element tokens ((tokens.drop start).length + 1)) ⟨start, []⟩ =
    result at hAgrees hHigher
  generalize Reader.document (tokens.drop start) = read at hAgrees
  cases hAgrees with
  | returned inside _ =>
      refine ⟨_, _, hHigher _ rfl, inside.index_eq ▸ inside.here_lt, fun _ _ => inside.within _,
        fun _ => inside.within _, fun _ _ => inside.within _, .inl ⟨_, rfl, ?_⟩⟩
      rw [inside.index_eq]
  | refused inside cause =>
      exact ⟨_, _, hHigher _ rfl, inside.index_eq ▸ inside.here_lt, fun _ _ => inside.within _,
        fun _ => inside.within _, fun _ _ => inside.within _, .inr ⟨_, cause, rfl, rfl⟩⟩

/-- The tokens of `#p show "hi"\\ \#p`. -/
def page : List Token :=
  [⟨.hash, [0x23], 0⟩, ⟨.identifier, [0x70], 1⟩,
    ⟨.showWord, [0x73, 0x68, 0x6f, 0x77], 3⟩, ⟨.text, [0x68, 0x69], 8⟩,
    ⟨.terminator, [0x5c, 0x5c], 12⟩, ⟨.closingHash, [0x5c, 0x23], 15⟩,
    ⟨.identifier, [0x70], 17⟩, ⟨.finish, Utf8.encode "<EOF>", 18⟩]

/-- The eight tokens of a small page are read under every higher bound, and the
index is inside them wherever it is used. -/
theorem element_stays_inside_page :
    Lexer.tokens (Utf8.encode "#p show \"hi\"\\\\ \\#p") = .ok page ∧
      ∃ s, (∀ bound > 8, run (element page bound) ⟨0, []⟩ =
          some (.ok (.element [0x70] [] [.shown [0x68, 0x69]]), s)) ∧
        .item 2 5 ∈ s.events ∧ ∀ purpose i, .used purpose i ∈ s.events → i < 8 := by
  have hSome : (Lexer.tokens (Utf8.encode "#p show \"hi\"\\\\ \\#p")).toOption = some page := by
    decide +kernel
  have hSource : Lexer.tokens (Utf8.encode "#p show \"hi\"\\\\ \\#p") = .ok page := by
    cases hTokens : Lexer.tokens (Utf8.encode "#p show \"hi\"\\\\ \\#p") with
    | error fault =>
        rw [hTokens] at hSome
        cases hSome
    | ok tokens =>
        rw [hTokens] at hSome
        cases hSome
        rfl
  have hDocument : Reader.document (page.drop 0) =
      .ok (.element [0x70] [] [.shown [0x68, 0x69]], page.drop 7) := rfl
  have hRecorded : (run (element page 9) ⟨0, []⟩).any
      (fun result => result.2.events.contains (.item 2 5)) = true := by
    decide +kernel
  obtain ⟨outcome, s, hRun, -, hUsed, -, -, hAlike⟩ :=
    (element_stays_inside (.inl ⟨_, hSource⟩)).2 0 (by decide)
  rw [hDocument] at hAlike
  rw [hRun 9 (by decide)] at hRecorded
  obtain ⟨item, rfl, hSame⟩ | ⟨fault, -, -, hSame⟩ := hAlike
  · obtain ⟨rfl, -⟩ := Prod.mk.inj (Except.ok.inj hSame)
    exact ⟨hSource, s, hRun, List.contains_iff_mem.mp hRecorded, hUsed⟩
  · cases hSame

end PageScript.Markup.Indexed
