import PageScript.Proofs.Automaton.Soundness

/-! Every derivation without elements is read by the automaton. From a state
where a phrase leads on, each rule of the phrase can be walked along to a state
that reduces by it, and the tokens that may follow the phrase there are among
those the reduction waits for. This is checked for every state and rule; the
states inside an element are left out, because the table prefers to shift in
some of them. -/
namespace PageScript.Automaton

open PageScript.Derivation GrammarSymbol

/-- The state after a run of symbols. -/
def walk? : Nat → List GrammarSymbol → Option Nat
  | state, [] => some state
  | state, X :: rest => match target? state X with
    | some next => walk? next rest
    | none => none

/-- The token kinds before which the state that a rule leads to reduces by it.
A rule that only stands for nothing has to reduce nothing before them, too. -/
def completes (state : Nat) (rule : Rule) : TerminalSet :=
  match walk? state rule.production.symbols with
  | none => .ofList []
  | some last =>
    if rule.production.symbols = [.n .nothing] then
      (reducesBefore last rule).inter (reducesBefore state .nothing)
    else reducesBefore last rule

/-- The rules of a phrase that have nothing to do with elements. -/
def plainRules (phrase : Nonterminal) : List Rule :=
  (Rule.ofPhrase phrase).filter Rule.elementFree

/-- The token kinds that may follow a phrase read from a state: all its rules
reduce before them. -/
def follow (state : Nat) (phrase : Nonterminal) : TerminalSet :=
  match (plainRules phrase).map (completes state) with
  | [] => .ofList []
  | first :: others => others.foldl TerminalSet.inter first

/-- The states that are only reached inside an element and where statements
begin. -/
def insideElement : List Nat := [79, 125, 179, 229]

/-- From the state, the symbols can be read one after the other when they stand
before `after`: each leads on, and each phrase is followed as it may be. -/
def readable (after : TerminalSet) : Nat → List GrammarSymbol → Bool
  | _, [] => true
  | state, X :: rest => match target? state X with
    | none => false
    | some next =>
      (match X with
        | .t _ => true
        | .n phrase => !insideElement.contains state &&
            (opening after rest).subset (follow state phrase)) &&
      readable after next rest

theorem mem_foldl_inter {sets : List TerminalSet} {first : TerminalSet} {kind : Terminal}
    (h : kind ∈ sets.foldl TerminalSet.inter first) :
    kind ∈ first ∧ ∀ s ∈ sets, kind ∈ s := by
  induction sets generalizing first with
  | nil => exact ⟨h, fun _ hs => nomatch hs⟩
  | cons set rest ih =>
      obtain ⟨hFirst, hRest⟩ := ih h
      rw [TerminalSet.mem_inter] at hFirst
      refine ⟨hFirst.1, fun s hs => ?_⟩
      rcases List.mem_cons.mp hs with rfl | hs
      · exact hFirst.2
      · exact hRest s hs

/-- The tokens that may follow a phrase are among those before which each of
its rules, walked along from that state, is reduced by. -/
theorem mem_completes_of_follow {state : Nat} {rule : Rule} (hRule : rule.elementFree = true)
    {kind : Terminal} (h : kind ∈ follow state rule.production.phrase) :
    kind ∈ completes state rule := by
  have hMem : completes state rule ∈ (plainRules rule.production.phrase).map (completes state) :=
    List.mem_map.mpr ⟨rule, List.mem_filter.mpr ⟨rule.mem_ofPhrase, hRule⟩, rfl⟩
  unfold follow at h
  split at h
  · rename_i hNil
    rw [hNil] at hMem
    cases hMem
  · rename_i first others hCons
    obtain ⟨hFirst, hOthers⟩ := mem_foldl_inter h
    rw [hCons] at hMem
    rcases List.mem_cons.mp hMem with hEq | hIn
    · rwa [hEq]
    · exact hOthers _ hIn

/-- A rule reduces in the state it leads to, before what may follow its
phrase. -/
theorem decision_of_follow {state last : Nat} {rule : Rule} (hRule : rule.elementFree = true)
    (hWalk : walk? state rule.production.symbols = some last) {kind : Terminal}
    (h : kind ∈ follow state rule.production.phrase) :
    decision last kind = some (.reduce rule) := by
  have hCompletes := mem_completes_of_follow hRule h
  rw [completes, hWalk] at hCompletes
  simp only at hCompletes
  split at hCompletes
  · exact decision_of_reducesBefore ((TerminalSet.mem_inter ..).mp hCompletes).1
  · exact decision_of_reducesBefore hCompletes

/-- Every rule of a phrase that leads on can be read. -/
theorem readable_of_target? {state target : Nat} {rule : Rule} (hRule : rule.elementFree = true)
    (hState : state ∉ insideElement)
    (h : target? state (.n rule.production.phrase) = some target) :
    readable (follow state rule.production.phrase) state rule.production.symbols = true := by
  have hTable : (List.range stateCount).all (fun state => insideElement.contains state ||
      (row? state).all fun row => row.gotos.all fun entry => (plainRules entry.1).all fun rule =>
        readable (follow state entry.1) state rule.production.symbols) = true := by decide +kernel
  obtain ⟨row, hRow, hTarget⟩ := target?_eq_some_iff.mp h
  have hAll := List.all_eq_true.mp hTable state (List.mem_range.mpr (lt_stateCount hRow))
  have hOutside : insideElement.contains state = false :=
    Bool.eq_false_iff.mpr fun hIn => hState (List.contains_iff_mem.mp hIn)
  simp only [hRow, hOutside, Bool.false_or] at hAll
  have hPhrase := List.all_eq_true.mp hAll _ (mem_of_lookup hTarget)
  exact List.all_eq_true.mp hPhrase rule (List.mem_filter.mpr ⟨rule.mem_ofPhrase, hRule⟩)

/-- Symbols can be read from a state only if the first one leads on, and the
others can be read from there. If the first is a phrase, what may come behind
it is foreseen. -/
theorem readable_cons {after : TerminalSet} {state : Nat} {X : GrammarSymbol}
    {rest : List GrammarSymbol} (h : readable after state (X :: rest) = true) :
    ∃ next, target? state X = some next ∧ readable after next rest = true ∧
      ∀ phrase, X = .n phrase → state ∉ insideElement ∧
        (opening after rest).subset (follow state phrase) = true := by
  unfold readable at h
  split at h
  · cases h
  · rename_i next hNext
    rw [Bool.and_eq_true] at h
    refine ⟨next, hNext, h.2, ?_⟩
    rintro phrase rfl
    have hPhrase := h.1
    rw [Bool.and_eq_true] at hPhrase
    exact ⟨by simpa using hPhrase.1, hPhrase.2⟩

namespace Growth

/-- From this spine and before these tokens, the automaton reads the derivation
and nothing else, and comes to the state. -/
def Grows (spine : Spine) (d : Derivation) (state : Nat) (rest : List Token) : Prop :=
  Runs d.size ⟨spine, d.tokens ++ rest⟩ ⟨(state, d) :: spine, rest⟩

/-- A row of derivations is read from left to right. -/
inductive GrowsAll (rest : List Token) : Spine → List Derivation → Spine → Prop where
  | nil (spine : Spine) : GrowsAll rest spine [] spine
  | cons {spine last : Spine} {d : Derivation} {ds : List Derivation} {state : Nat}
      (first : Grows spine d state (tokensAll ds ++ rest))
      (others : GrowsAll rest ((state, d) :: spine) ds last) :
      GrowsAll rest spine (d :: ds) last

theorem Grows.leaf {spine : Spine} {t : Token} {state : Nat} (rest : List Token)
    (h : target? (topOf spine) (.t t.kind) = some state) : Grows spine (.leaf t) state rest :=
  .one (.shift (decision_of_target? h))

/-- Tokens that lead from state to state are all shifted. -/
theorem growsAll_leaves (spine : Spine) {tokens : List Token} {state : Nat} (rest : List Token)
    (h : walk? (topOf spine) (tokens.map fun t => .t t.kind) = some state) :
    ∃ last, topOf last = state ∧ GrowsAll rest spine (tokens.map Derivation.leaf) last := by
  induction tokens generalizing spine with
  | nil => exact ⟨spine, Option.some.inj h, .nil spine⟩
  | cons t tokens ih =>
      rw [List.map_cons, walk?] at h
      split at h
      · next next hNext =>
          obtain ⟨last, hTop, hAll⟩ := ih ((next, .leaf t) :: spine) h
          exact ⟨last, hTop, .cons (.leaf _ hNext) hAll⟩
      · cases h

/-- Derivations that grow one after the other make one run, which puts them on
the spine in this order. -/
theorem GrowsAll.runs {rest : List Token} {spine last : Spine} {ds : List Derivation}
    (h : GrowsAll rest spine ds last) :
    Runs (sizeAll ds) ⟨spine, tokensAll ds ++ rest⟩ ⟨last, rest⟩ ∧
      ∃ upper, last = upper ++ spine ∧ Spine.parts upper = ds := by
  induction h with
  | nil spine => exact ⟨.zero _, [], rfl, rfl⟩
  | @cons spine last d ds state first _ ih =>
      obtain ⟨hRuns, upper, rfl, rfl⟩ := ih
      refine ⟨?_, upper ++ [(state, d)], List.append_cons .., ?_⟩
      · rw [tokensAll, sizeAll, List.append_assoc]
        exact first.trans hRuns
      · rw [Spine.parts_append]
        rfl

/-- Once its parts have been read, a rule is applied where the automaton
reduces by it. -/
theorem Grows.node {rule : Rule} {parts : List Derivation} {spine last : Spine} {rest : List Token}
    {state : Nat} (hParts : GrowsAll rest spine parts last) (hSize : parts.length = rule.size)
    (hReduce : Automaton.decision (topOf last) (headKind rest) = some (.reduce rule))
    (hLeads : target? (topOf spine) (.n rule.production.phrase) = some state) :
    Grows spine (.node rule parts) state rest := by
  obtain ⟨hRuns, upper, rfl, rfl⟩ := hParts.runs
  have hLength : upper.length = rule.size := by
    rw [← hSize]
    simp [Spine.parts]
  have hTarget : target? (topOf ((upper ++ spine).drop rule.size)) (.n rule.production.phrase) =
      some state := by
    rwa [List.drop_left' hLength]
  have hLast := Step.reduce (g := ⟨upper ++ spine, rest⟩) hReduce hTarget
  rw [reduced, List.take_left' hLength, List.drop_left' hLength] at hLast
  exact hRuns.trans (.one hLast)

/-- From every state where its phrase leads on, and before every token that may
follow it there, the automaton reads the derivation and nothing else. -/
def Reads (d : Derivation) : Prop :=
  ∀ (spine : Spine) (rest : List Token) (phrase : Nonterminal) (state : Nat),
    d.symbol = .n phrase → topOf spine ∉ insideElement →
    target? (topOf spine) (.n phrase) = some state →
    headKind rest ∈ follow (topOf spine) phrase →
    Grows spine d state rest

/-- One derivation of a row of them: a token is shifted, a phrase is read. -/
theorem grows_of_reads {d : Derivation} (hReads : Reads d) {spine : Spine} {rest : List Token}
    {next : Nat} (hNext : target? (topOf spine) d.symbol = some next)
    (hPhrase : ∀ phrase, d.symbol = .n phrase → topOf spine ∉ insideElement ∧
      headKind rest ∈ follow (topOf spine) phrase) : Grows spine d next rest := by
  cases d with
  | leaf t => exact .leaf rest hNext
  | node rule parts =>
      obtain ⟨hOutside, hFollow⟩ := hPhrase _ rfl
      exact hReads spine rest _ next rfl hOutside hNext hFollow

/-- A row of derivations is read from left to right, if their symbols can be.
The induction is on the row, and what can begin the rest of it is what the
automaton expects behind the first one. -/
theorem growsAll_of_readable {ds : List Derivation} (hReads : ∀ d ∈ ds, Reads d)
    (hValid : ∀ d ∈ ds, d.Valid) {after : TerminalSet} {rest : List Token}
    (hAfter : headKind rest ∈ after) (spine : Spine)
    (hReadable : readable after (topOf spine) (ds.map symbol) = true) :
    ∃ last : Spine, GrowsAll rest spine ds last ∧
      walk? (topOf spine) (ds.map symbol) = some (topOf last) := by
  induction ds generalizing spine with
  | nil => exact ⟨spine, .nil spine, rfl⟩
  | cons d others ih =>
      obtain ⟨next, hNext, hOthers, hPhrase⟩ := readable_cons hReadable
      have hValidOthers : ∀ e ∈ others, e.Valid := fun e he => hValid e (.tail _ he)
      have hOpening : headKind (tokensAll others ++ rest) ∈ opening after (others.map symbol) :=
        headKind_mem_opening hValidOthers
          (fun e he t rest ht => (hValidOthers e he).head_mem_starts ht)
          fun _ => hAfter
      have hFirst := grows_of_reads (hReads d (.head _)) hNext fun phrase hSymbol =>
        ⟨(hPhrase phrase hSymbol).1,
          TerminalSet.mem_of_subset (hPhrase phrase hSymbol).2 hOpening⟩
      obtain ⟨last, hRow, hWalk⟩ :=
        ih (fun e he => hReads e (.tail _ he)) hValidOthers ((next, d) :: spine) hOthers
      refine ⟨last, .cons hFirst hRow, ?_⟩
      rw [List.map_cons, walk?, hNext]
      exact hWalk

/-- The automaton reads every derivation that has nothing to do with
elements. -/
theorem reads_of_elementFree {d : Derivation} (hValid : d.Valid) (hFree : d.ElementFree) :
    Reads d := by
  induction hValid with
  | leaf t =>
      intro spine rest phrase state hSymbol
      cases hSymbol
  | @node rule parts joins valid ih =>
      intro spine rest phrase state hSymbol hOutside hLeads hFollow
      cases hSymbol
      cases hFree with
      | node hRule hParts =>
          have hReadable := readable_of_target? hRule hOutside hLeads
          rw [← joins] at hReadable
          obtain ⟨last, hRow, hWalk⟩ :=
            growsAll_of_readable (fun d hd => ih d hd (hParts d hd)) valid hFollow spine hReadable
          rw [joins] at hWalk
          have hSize : parts.length = rule.size := by
            rw [Rule.size, ← joins, List.length_map]
          exact .node hRow hSize (decision_of_follow hRule hWalk hFollow) hLeads

/-- The automaton reads a program without elements to its end. -/
theorem runs_finished {d : Derivation} {tokens : List Token} (h : d.Derives (.n .program) tokens)
    (hFree : d.ElementFree) : Runs d.size (start tokens) (finished d) := by
  have hOutside : topOf [] ∉ insideElement := by decide
  have hLeads : target? (topOf []) (.n .program) = some programState := by decide +kernel
  have hEnd : (TerminalSet.ofList [.endOfInput]).subset (follow (topOf []) .program) = true := by
    decide +kernel
  have hFollow : headKind [] ∈ follow (topOf []) .program :=
    TerminalSet.mem_of_subset hEnd ((TerminalSet.mem_ofList ..).mpr (.head _))
  have hGrows := reads_of_elementFree h.valid hFree [] [] .program programState h.symbol_eq hOutside
    hLeads hFollow
  rwa [Grows, List.append_nil, h.tokens_eq] at hGrows

theorem decision_finished (d : Derivation) : (finished d).decision = some .accept := by
  have hAccept : Automaton.decision programState .endOfInput = some .accept := by decide +kernel
  exact hAccept

/-- Tokens form a program without elements in at most one way. -/
theorem derives_unique {d e : Derivation} {tokens : List Token}
    (hd : d.Derives (.n .program) tokens) (he : e.Derives (.n .program) tokens)
    (hdFree : d.ElementFree) (heFree : e.ElementFree) : d = e := by
  have hEnd := Runs.unique (runs_finished hd hdFree) (runs_finished he heFree)
    (.inr (decision_finished d)) (.inr (decision_finished e))
  cases hEnd
  rfl

end Growth

end PageScript.Automaton
