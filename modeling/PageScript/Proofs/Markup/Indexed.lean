import PageScript.Proofs.Markup.Reading

/-! Reading by an index. The tokens stay where they are and an index moves
through them, so a reading could fetch a token from outside, or go on for ever.
It records how the index is used, and where a bound cuts it off it has no
result. Main statements: what each step gives, that no step leaves tokens whose
last one is the end, and that a higher bound keeps the result. -/
namespace PageScript.Markup

namespace Indexed

/-- What the index is used for: to look at the token there, to step over it, or
to look at a token some places behind it. -/
inductive Purpose where
  | peek
  | advance
  | ahead (offset : Nat)
  deriving Repr, DecidableEq

/-- What is recorded of a reading. -/
inductive Event where
  /-- The index was used while it had this value. -/
  | used (purpose : Purpose) (index : Nat)
  /-- The token at this place was fetched. -/
  | fetched (place : Nat)
  /-- An item was read: where it begins, and where the index stood behind
  it. -/
  | item (first behind : Nat)
  deriving Repr, DecidableEq

/-- The index, and what has happened so far, of which the latest comes
first. -/
structure State where
  index : Nat
  events : List Event
  deriving Repr, DecidableEq

/-- Why a reading stops without a result. -/
inductive Stop where
  | refused (fault : Fault)
  /-- A token was fetched from a place where there is none. -/
  | outside
  /-- The word by which an item was recognised is not there. -/
  | lostWord
  deriving Repr, DecidableEq

end Indexed

/-- A reading by an index. It has no result at all if it is cut off before it
ends. -/
abbrev Indexed (α : Type) := ExceptT Indexed.Stop (StateT Indexed.State Option) α

namespace Indexed

def record (event : Event) : Indexed Unit :=
  modify fun s => { s with events := event :: s.events }

def index : Indexed Nat :=
  return (← get).index

def note (purpose : Purpose) : Indexed Unit := do
  record (.used purpose (← index))

/-- The bound is used up. -/
def cutOff {α : Type} : Indexed α :=
  liftM (none : Option α)

section

variable (tokens : List Token)

/-- The only way to a token. -/
def fetch (place : Nat) : Indexed Token := do
  record (.fetched place)
  match tokens[place]? with
  | some t => return t
  | none => throw .outside

def peek : Indexed Token := do
  note .peek
  fetch tokens (← index)

def atFinish : Indexed Bool :=
  return (← peek tokens).kind == .finish

/-- Whether a token of this kind comes next. At the end the answer is always
no, also for the end itself. -/
def check (kind : Kind) : Indexed Bool := do
  if ← atFinish tokens then return false
  else return (← peek tokens).kind == kind

def checkAhead (offset : Nat) (kind : Kind) : Indexed Bool := do
  note (.ahead offset)
  let i ← index
  if tokens.length ≤ i + offset then return false
  else return (← fetch tokens (i + offset)).kind == kind

/-- Move the index, but never over the end. -/
def step : Indexed Unit := do
  if ← atFinish tokens then return ()
  else modify fun s => { s with index := s.index + 1 }

/-- Take a step and give the token before the index. -/
def advance : Indexed Token := do
  note .advance
  step tokens
  match ← index with
  | 0 => throw .outside
  | i + 1 => fetch tokens i

def accept (kind : Kind) : Indexed Bool := do
  if ← check tokens kind then
    let _ ← advance tokens
    return true
  else return false

def consume (kind : Kind) (what : Expectation) : Indexed Token := do
  if ← check tokens kind then advance tokens
  else throw (.refused (.expected what (← peek tokens).position))

/-- Step over the word by which an item was recognised. -/
def consumeWord (kind : Kind) : Indexed Token := do
  if ← check tokens kind then advance tokens
  else
    let _ ← peek tokens
    throw .lostWord

def oneAttribute : Indexed Attribute := do
  let key ← consume tokens .identifier .attributeKey
  let _ ← consume tokens .colon .attributeColon
  let value ← consume tokens .text .attributeText
  return ⟨key.text, value.text⟩

def moreAttributes : Nat → Indexed (List Attribute)
  | 0 => cutOff
  | bound + 1 => do
    if ← accept tokens .comma then
      let first ← oneAttribute tokens
      let others ← moreAttributes bound
      return first :: others
    else return []

def atAttribute : Indexed Bool := do
  if ← check tokens .identifier then
    if ← checkAhead tokens 1 .colon then checkAhead tokens 2 .text
    else return false
  else return false

def attributes (bound : Nat) : Indexed (List Attribute) := do
  if ← atAttribute tokens then
    let first ← oneAttribute tokens
    let others ← moreAttributes tokens bound
    let _ ← accept tokens .terminator
    return first :: others
  else return []

def shown : Indexed Item := do
  let _ ← consumeWord tokens .showWord
  let message ← consume tokens .text .shownText
  let _ ← consume tokens .terminator .showEnd
  return .shown message.text

def definition : Indexed Item := do
  let _ ← consumeWord tokens .define
  let name ← consume tokens .identifier .definedName
  let _ ← consume tokens .equals .defineEquals
  let value ← peek tokens
  if value.kind = .identifier ∨ value.kind = .text then
    let _ ← advance tokens
    let _ ← consume tokens .terminator .defineEnd
    return .definition name.text value.text
  else throw (.refused .expectedValue)

/-- Whether the content of an element is over. The second check never
succeeds. -/
def atBodyEnd : Indexed Bool := do
  if ← check tokens .closingHash then return true
  else check tokens .finish

/-- What stands between the opening and the closing of an element. -/
def body (bound : Nat) (items : Indexed (List Item)) : Indexed (List Attribute × List Item) := do
  if ← atBodyEnd tokens then return ([], [])
  else
    let attributes ← attributes tokens bound
    let content ← items
    return (attributes, content)

def anyItem (element : Indexed Item) : Indexed Item := do
  if ← check tokens .showWord then shown tokens
  else if ← check tokens .define then definition tokens
  else if ← check tokens .hash then element
  else throw (.refused (.unexpectedToken (← peek tokens).text))

/-- One item, recorded when it has been read. -/
def contentItem (element : Indexed Item) : Indexed Item := do
  let first ← index
  let item ← anyItem tokens element
  record (.item first (← index))
  return item

mutual

/-- An element with everything in it. The bound limits how long the reading may
go on and has no other part in it. -/
def element : Nat → Indexed Item
  | 0 => cutOff
  | bound + 1 => do
    let _ ← consume tokens .hash .hash
    let opening ← consume tokens .identifier .tag
    let (attributes, content) ← body tokens bound (items bound)
    let _ ← consume tokens .closingHash .closingHash
    let closing ← consume tokens .identifier .closingTag
    if closing.text = opening.text then return .element opening.text attributes content
    else throw (.refused (.mismatched closing.text opening.text))

def items : Nat → Indexed (List Item)
  | 0 => cutOff
  | bound + 1 => do
    if ← atBodyEnd tokens then return []
    else
      let first ← contentItem tokens (element bound)
      let others ← items bound
      return first :: others

end

end

section

variable {α β : Type}

/-- What comes of a reading from a state, if it ends. -/
def run (reading : Indexed α) (s : State) : Option (Except Stop α × State) :=
  StateT.run (ExceptT.run reading) s

/-- After a reading that has a result, the next one goes on from where it
stopped. -/
theorem run_bind_of_ok {first : Indexed α} {next : α → Indexed β} {s s' : State} {a : α}
    (h : run first s = some (.ok a, s')) : run (first >>= next) s = run (next a) s' := by
  change (run first s).bind _ = _
  rw [h]
  rfl

/-- After a reading that has stopped for some reason nothing else is read. -/
theorem run_bind_of_error {first : Indexed α} {next : α → Indexed β} {s s' : State}
    {stop : Stop} (h : run first s = some (.error stop, s')) :
    run (first >>= next) s = some (.error stop, s') := by
  change (run first s).bind _ = _
  rw [h]
  rfl

/-! ### Higher bounds -/

/-- Where the one reading ends, the other ends alike. -/
def Extends (short long : Indexed α) : Prop :=
  ∀ s result, run short s = some result → run long s = some result

theorem extends_cutOff (long : Indexed α) : Extends cutOff long := by
  rintro s result ⟨⟩

theorem Extends.refl (reading : Indexed α) : Extends reading reading :=
  fun _ _ h => h

/-- Readings one after the other end alike under a higher bound, if each of
them does. -/
theorem Extends.bind {short long : Indexed α} {next next' : α → Indexed β}
    (hFirst : Extends short long) (hNext : ∀ a, Extends (next a) (next' a)) :
    Extends (short >>= next) (long >>= next') := by
  intro s result h
  cases hRun : run short s with
  | none =>
      have hNone : run (short >>= next) s = (run short s).bind _ := rfl
      rw [hNone, hRun] at h
      cases h
  | some first =>
      obtain ⟨outcome, s'⟩ := first
      have hLong := hFirst s _ hRun
      cases outcome with
      | ok a =>
          rw [run_bind_of_ok hRun] at h
          rw [run_bind_of_ok hLong]
          exact hNext a s' result h
      | error stop =>
          rw [run_bind_of_error hRun] at h
          rw [run_bind_of_error hLong]
          exact h

section

variable {tokens : List Token}

/-- Attributes behind commas that are read under a bound are read alike under
the next one. -/
theorem extends_moreAttributes (bound : Nat) :
    Extends (moreAttributes tokens bound) (moreAttributes tokens (bound + 1)) := by
  induction bound with
  | zero => exact extends_cutOff _
  | succ bound ih =>
      refine (Extends.refl _).bind fun more => ?_
      cases more with
      | false => exact .refl _
      | true => exact (Extends.refl _).bind fun first => ih.bind fun others => .refl _

/-- Attributes that are read under a bound are read alike under the next
one. -/
theorem extends_attributes (bound : Nat) :
    Extends (attributes tokens bound) (attributes tokens (bound + 1)) := by
  refine (Extends.refl _).bind fun found => ?_
  cases found with
  | false => exact .refl _
  | true =>
      exact (Extends.refl _).bind fun first =>
        (extends_moreAttributes bound).bind fun others => .refl _

/-- The body of an element that is read under a bound is read alike under the
next one, if its items are. -/
theorem Extends.body {short long : Indexed (List Item)} (h : Extends short long) (bound : Nat) :
    Extends (body tokens bound short) (body tokens (bound + 1) long) := by
  refine (Extends.refl _).bind fun closes => ?_
  cases closes with
  | true => exact .refl _
  | false => exact (extends_attributes bound).bind fun attributes => h.bind fun content => .refl _

/-- An item is read alike under a higher bound if an element is, which may be
the item. -/
theorem Extends.contentItem {short long : Indexed Item} (h : Extends short long) :
    Extends (contentItem tokens short) (contentItem tokens long) := by
  have hAny : Extends (anyItem tokens short) (anyItem tokens long) := by
    refine (Extends.refl _).bind fun isShow => ?_
    cases isShow with
    | true => exact .refl _
    | false =>
        refine (Extends.refl _).bind fun isDefine => ?_
        cases isDefine with
        | true => exact .refl _
        | false =>
            refine (Extends.refl _).bind fun isElement => ?_
            cases isElement with
            | true => exact h
            | false => exact .refl _
  exact (Extends.refl _).bind fun first => hAny.bind fun item => .refl _

/-- A bound that suffices can be raised. Elements and items are treated
together, by induction on the bound. -/
theorem extends_reading (bound : Nat) :
    Extends (element tokens bound) (element tokens (bound + 1)) ∧
      Extends (items tokens bound) (items tokens (bound + 1)) := by
  induction bound with
  | zero => exact ⟨extends_cutOff _, extends_cutOff _⟩
  | succ bound ih =>
      obtain ⟨ihElement, ihItems⟩ := ih
      constructor
      · refine (Extends.refl _).bind fun hash => (Extends.refl _).bind fun opening => ?_
        exact (ihItems.body bound).bind fun inside => .refl _
      · refine (Extends.refl _).bind fun closes => ?_
        cases closes with
        | true => exact .refl _
        | false => exact ihElement.contentItem.bind fun first => ihItems.bind fun others => .refl _

/-- An element that is read under a bound is read alike under every higher
one. -/
theorem extends_element {low high : Nat} (h : low ≤ high) :
    Extends (element tokens low) (element tokens high) := by
  induction h with
  | refl => exact .refl _
  | step _ ih => exact fun s result hRun => (extends_reading _).1 s result (ih s result hRun)

end

/-! ### Steps -/

/-- The index was inside so many tokens, and an item took two of them at
least. -/
def Event.Within (size : Nat) : Event → Prop
  | .used _ index => index < size
  | .fetched place => place < size
  | .item first behind => first + 2 ≤ behind

/-- The index is here, inside the tokens, and was inside them whenever it was
used. -/
structure State.At (tokens : List Token) (here : Nat) (s : State) : Prop where
  index_eq : s.index = here
  here_lt : here < tokens.length
  within : ∀ e ∈ s.events, e.Within tokens.length

/-- From here the reading gives `a` and leaves the index there. -/
def Gives (tokens : List Token) (here : Nat) (reading : Indexed α) (a : α) (there : Nat) : Prop :=
  ∀ s : State, s.At tokens here → ∃ s', run reading s = some (.ok a, s') ∧
    s'.At tokens there

variable {tokens : List Token} {here there : Nat} {t : Token}

theorem gives_pure (a : α) : Gives tokens here (pure a) a here :=
  fun s h => ⟨s, rfl, h⟩

/-- What is given by a reading, and by the next one from where it has stopped,
is given by both together. -/
theorem Gives.bind {first : Indexed α} {next : α → Indexed β} {a : α} {b : β} {last : Nat}
    (hFirst : Gives tokens here first a there) (hNext : Gives tokens there (next a) b last) :
    Gives tokens here (first >>= next) b last := by
  intro s h
  obtain ⟨s₁, hRun₁, h₁⟩ := hFirst s h
  obtain ⟨s₂, hRun₂, h₂⟩ := hNext s₁ h₁
  exact ⟨s₂, (run_bind_of_ok hRun₁).trans hRun₂, h₂⟩

theorem gives_record (event : Event) (hEvent : event.Within tokens.length) :
    Gives tokens here (record event) () here :=
  fun _ h => ⟨_, rfl, h.index_eq, h.here_lt, List.forall_mem_cons.mpr ⟨hEvent, h.within⟩⟩

theorem gives_index : Gives tokens here index here here := by
  rintro s ⟨rfl, hLess, hWithin⟩
  exact ⟨s, rfl, rfl, hLess, hWithin⟩

/-- To note what the index is used for is allowed while it is inside the
tokens. -/
theorem gives_note (hHere : here < tokens.length) (purpose : Purpose) :
    Gives tokens here (note purpose) () here :=
  gives_index.bind (gives_record (.used purpose here) hHere)

theorem gives_fetch {place : Nat} (hPlace : tokens[place]? = some t) :
    Gives tokens here (fetch tokens place) t here := by
  obtain ⟨hLess, -⟩ := List.getElem?_eq_some_iff.mp hPlace
  refine (gives_record (.fetched place) hLess).bind ?_
  rw [hPlace]
  exact gives_pure t

/-- To look at a token further ahead never leaves the tokens: behind the end
the answer is no. -/
theorem gives_checkAhead (hHere : here < tokens.length) (offset : Nat) (kind : Kind) :
    Gives tokens here (checkAhead tokens offset kind)
      (Reader.next? (tokens.drop (here + offset)) == some kind)
      here := by
  refine (gives_note hHere (.ahead offset)).bind (gives_index.bind ?_)
  by_cases hOffset : tokens.length ≤ here + offset
  · rw [if_pos hOffset, List.drop_of_length_le hOffset]
    exact gives_pure _
  · have hFound := List.getElem?_eq_getElem (Nat.lt_of_not_le hOffset)
    rw [if_neg hOffset, Reader.next?, List.head?_drop, hFound]
    exact (gives_fetch hFound).bind (gives_pure _)

section

variable (hNext : tokens[here]? = some t)

include hNext

theorem gives_peek : Gives tokens here (peek tokens) t here := by
  obtain ⟨hHere, -⟩ := List.getElem?_eq_some_iff.mp hNext
  exact (gives_note hHere .peek).bind (gives_index.bind (gives_fetch hNext))

theorem gives_atFinish : Gives tokens here (atFinish tokens) (t.kind == .finish) here :=
  (gives_peek hNext).bind (gives_pure _)

/-- A check tells the kind of the next token, unless it is asked for the
end. -/
theorem gives_check {kind : Kind} (hKind : kind ≠ .finish) :
    Gives tokens here (check tokens kind) (t.kind == kind) here := by
  refine (gives_atFinish hNext).bind ?_
  by_cases hFinish : t.kind = .finish
  · have hNot : (t.kind == kind) = false := beq_eq_false_iff_ne.mpr (hFinish ▸ hKind.symm)
    rw [hNot, if_pos (beq_iff_eq.mpr hFinish)]
    exact gives_pure _
  · rw [if_neg (mt beq_iff_eq.mp hFinish)]
    exact (gives_peek hNext).bind (gives_pure _)

/-- The check whether the end comes next always says no, as at the end every
check does. -/
theorem gives_check_finish : Gives tokens here (check tokens .finish) false here := by
  refine (gives_atFinish hNext).bind ?_
  by_cases hFinish : t.kind = .finish
  · rw [if_pos (beq_iff_eq.mpr hFinish)]
    exact gives_pure _
  · rw [if_neg (mt beq_iff_eq.mp hFinish)]
    have hLook := gives_atFinish hNext
    rw [beq_eq_false_iff_ne.mpr hFinish] at hLook
    exact hLook

/-- The content of an element is over only before the mark that closes it. -/
theorem gives_atBodyEnd : Gives tokens here (atBodyEnd tokens) (t.kind == .closingHash) here := by
  refine (gives_check hNext (by decide)).bind ?_
  cases t.kind == .closingHash with
  | true => exact gives_pure _
  | false => exact gives_check_finish hNext

/-- The token at the index is the first of those that the list has not read. -/
theorem drop_of_next : tokens.drop here = t :: tokens.drop (here + 1) := by
  obtain ⟨hHere, rfl⟩ := List.getElem?_eq_some_iff.mp hNext
  exact List.drop_eq_getElem_cons hHere

end

/-- The last token is the end. -/
def Ended (tokens : List Token) : Prop :=
  ∃ lexed finish, tokens = lexed ++ [finish] ∧ finish.kind = .finish

theorem Ended.length_pos (hEnded : Ended tokens) : 0 < tokens.length := by
  obtain ⟨lexed, finish, rfl, -⟩ := hEnded
  simp

/-- Behind a token that is not the end there is another one. -/
theorem Ended.lt_of_next (hEnded : Ended tokens) (hNext : tokens[here]? = some t)
    (hKind : t.kind ≠ .finish) :
    here + 1 < tokens.length := by
  obtain ⟨lexed, finish, rfl, hFinish⟩ := hEnded
  obtain ⟨hHere, hSame⟩ := List.getElem?_eq_some_iff.mp hNext
  rw [List.length_append, List.length_singleton] at hHere ⊢
  by_cases hLast : here = lexed.length
  · subst hLast
    rw [List.getElem_concat_length rfl] at hSame
    exact absurd (hSame ▸ hFinish) hKind
  · omega

section

variable (hEnded : Ended tokens) (hNext : tokens[here]? = some t)

include hEnded hNext

/-- A step over a token that is not the end stays inside the tokens. -/
theorem gives_step (hKind : t.kind ≠ .finish) :
    Gives tokens here (step tokens) () (here + 1) := by
  refine (gives_atFinish hNext).bind ?_
  rw [if_neg (mt beq_iff_eq.mp hKind)]
  exact fun _ h => ⟨_, rfl, congrArg (· + 1) h.index_eq,
    hEnded.lt_of_next hNext hKind, h.within⟩

/-- To take a step gives the token that was stepped over, if it is not the end.
The index has moved, so the token before it is the one that was next. -/
theorem gives_advance (hKind : t.kind ≠ .finish) :
    Gives tokens here (advance tokens) t (here + 1) := by
  obtain ⟨hHere, -⟩ := List.getElem?_eq_some_iff.mp hNext
  refine (gives_note hHere .advance).bind ((gives_step hEnded hNext hKind).bind ?_)
  exact gives_index.bind (gives_fetch hNext)

/-- A token of the wanted kind is accepted, and the index moves behind it. -/
theorem gives_accept {kind : Kind} (hFinish : kind ≠ .finish) (hKind : t.kind = kind) :
    Gives tokens here (accept tokens kind) true (here + 1) := by
  refine (gives_check hNext hFinish).bind ?_
  rw [if_pos (beq_iff_eq.mpr hKind)]
  exact (gives_advance hEnded hNext (hKind ▸ hFinish)).bind (gives_pure true)

/-- The word by which an item was recognised is still there and is stepped
over. -/
theorem gives_consumeWord {kind : Kind} (hFinish : kind ≠ .finish) (hKind : t.kind = kind) :
    Gives tokens here (consumeWord tokens kind) t (here + 1) := by
  refine (gives_check hNext hFinish).bind ?_
  rw [if_pos (beq_iff_eq.mpr hKind)]
  exact gives_advance hEnded hNext (hKind ▸ hFinish)

omit hEnded in
/-- A token of another kind is not accepted, and the index stays before it. -/
theorem gives_not_accept {kind : Kind} (hFinish : kind ≠ .finish) (hKind : t.kind ≠ kind) :
    Gives tokens here (accept tokens kind) false here := by
  refine (gives_check hNext hFinish).bind ?_
  rw [if_neg (mt beq_iff_eq.mp hKind)]
  exact gives_pure false

end

/-! ### Looking for an attribute -/

theorem exists_next (hHere : here < tokens.length) : ∃ t, tokens[here]? = some t :=
  ⟨_, List.getElem?_eq_getElem hHere⟩

/-- Whether an attribute comes next is told by the kinds of three tokens,
looked at one by one. -/
theorem atAttribute_eq_next? (ts : List Token) :
    Reader.atAttribute ts = (Reader.next? ts ==
      some .identifier && (Reader.next? (ts.drop 1) == some .colon &&
      Reader.next? ((ts.drop 1).drop 1) == some .text)) := by
  rcases ts with _ | ⟨a, _ | ⟨b, _ | ⟨c, rest⟩⟩⟩ <;>
    simp [Reader.atAttribute, Reader.next?, Bool.and_assoc]

/-- Both readings agree on whether an attribute comes next. -/
theorem gives_atAttribute (hHere : here < tokens.length) :
    Gives tokens here (atAttribute tokens) (Reader.atAttribute (tokens.drop here)) here := by
  obtain ⟨t, hNext⟩ := exists_next hHere
  have hFirst : (Reader.next? (tokens.drop here) == some .identifier) =
      (t.kind == .identifier) := by
    rw [drop_of_next hNext]
    rfl
  rw [atAttribute_eq_next?, hFirst, List.drop_drop, List.drop_drop]
  refine (gives_check hNext (by decide)).bind ?_
  cases t.kind == .identifier with
  | false => exact gives_pure false
  | true =>
      refine (gives_checkAhead hHere 1 .colon).bind ?_
      cases Reader.next? (tokens.drop (here + 1)) == some .colon with
      | false => exact gives_pure false
      | true => exact gives_checkAhead hHere 2 .text

end

end Indexed

end PageScript.Markup
