import PageScript.Proofs.Grammar.Means
import PageScript.Proofs.Parse.Tracking

/-! What a parse accepts. Main statement: a script without elements in which
every function can be built is accepted exactly if its tokens form a program,
which they do in one way only; otherwise the parse complains about the first
token that does not fit. -/
namespace PageScript.Parse

open Automaton PageScript.Derivation
open Lexer (Lexeme Laid collect scan)

section stopping

variable {policy : ElementPolicy} {source : String} {input : List Lexeme} {steps : Nat} {c : Config}
    {g : Growth}

theorem Tracks.parse_eq (h : Tracks policy source input steps c g) {parsed : Parsed}
    (hDone : step policy source c = .done parsed) : parseLexemes policy source input = parsed :=
  parseLexemes_of_leads h.leads h.lt_stepBound hDone

/-- Where a tracking parse accepts, the tokens have a derivation with that
value. -/
theorem Tracks.derives_of_accept (h : Tracks policy source input steps c g) (hRest : g.rest = [])
    {d : Derivation} {below : Spine} (hSpine : g.spine = (programState, d) :: below) :
    d.Derives (.n .program) (collect input).tokens := by
  obtain ⟨e, rfl, hDerives⟩ := h.runs.derives (by rw [hSpine]; rfl) hRest
  cases hSpine
  exact hDerives

/-- Where the automaton ends with one derivation that has a value, the parse
accepts it. The parse tracks the automaton until it stops, so it stops with the
same derivation. A rule that fails to build would leave the derivation without
a value. -/
theorem accepted_of_runs (hTokens : ∀ t ∈ (collect input).tokens, t.Scanned)
    (hFault : (collect input).fault = none) {d : Derivation} {n : Nat}
    (hRuns : Growth.Runs n (Growth.start (collect input).tokens) (Growth.finished d)) {p : Phrase}
    (hValue : d.value policy = .ok p) :
    (parseLexemes policy source input).outcome = .accepted p := by
  obtain ⟨steps, c, g, hTracks, hStops⟩ := exists_stops policy source hTokens
  have hFinished (hEnded : g.Ended) : g = Growth.finished d :=
    hTracks.runs.unique hRuns hEnded (.inr (Growth.decision_finished d))
  cases hStops with
  | raises failure => exact absurd failure (hTracks.failure?_ne_some hRuns hValue _)
  | accepts decides _ _ spine_eq value_eq ends =>
      rw [hFinished (.inr decides)] at spine_eq
      cases spine_eq
      rw [hValue] at value_eq
      cases value_eq
      rw [hTracks.parse_eq ends]
  | misfits decides _ =>
      rw [hFinished (.inl decides), Growth.decision_finished] at decides
      cases decides
  | breaks faulty _ =>
      rw [hFault] at faulty
      cases faulty

/-- A program without elements that has a value is accepted. -/
theorem accepted_of_derives (hTokens : ∀ t ∈ (collect input).tokens, t.Scanned)
    (hFault : (collect input).fault = none) {d : Derivation}
    (hDerives : d.Derives (.n .program) (collect input).tokens) (hFree : d.ElementFree) {p : Phrase}
    (hValue : d.value policy = .ok p) : (parseLexemes policy source input).outcome = .accepted p :=
  accepted_of_runs hTokens hFault (Growth.runs_finished hDerives hFree) hValue

/-- Where the automaton gets stuck among derivations that all have values, the
parse complains about what it would read next. -/
theorem tree_of_stuck (hTokens : ∀ t ∈ (collect input).tokens, t.Scanned)
    (hFault : (collect input).fault = none) {last : Growth} {n : Nat}
    (hRuns : Growth.Runs n (Growth.start (collect input).tokens) last)
    (hStuck : last.decision = none) (hValued : Valued policy last.spine) :
    (parseLexemes policy source input).tree = .error (unfitting source (front last.rest)) := by
  obtain ⟨steps, c, g, hTracks, hStops⟩ := exists_stops policy source hTokens
  have hLast (hEnded : g.Ended) : g = last := hTracks.runs.unique hRuns hEnded (.inl hStuck)
  cases hStops with
  | raises failure =>
      exact absurd failure (hTracks.failure?_ne_some_of_valued hRuns (.inl hStuck) hValued _)
  | accepts decides _ _ _ _ _ =>
      rw [hLast (.inr decides), hStuck] at decides
      cases decides
  | misfits decides ends =>
      rw [hTracks.parse_eq ends, hLast (.inl decides)]
      rfl
  | breaks faulty _ =>
      rw [hFault] at faulty
      cases faulty

/-- What a parse comes to if no rule fails to build while it tracks the
automaton: the program that all tokens mean, a complaint about the first token
that does not fit, or one about a number that cannot be read. -/
theorem tree_cases (hTokens : ∀ t ∈ (collect input).tokens, t.Scanned)
    (hFailures : ∀ steps c g, Tracks policy source input steps c g → c.failure? policy = none) :
    ((collect input).fault = none ∧ ∃ (d : Derivation) (ns : List Node),
      d.Derives (.n .program) (collect input).tokens ∧
        d.value policy = .ok (.node (.program ns)) ∧
      (parseLexemes policy source input).tree = .ok (.program ns)) ∨
    (∃ unread, unread <:+ (collect input).tokens ∧
      (parseLexemes policy source input).tree = .error (unfitting source (front unread))) ∨
    ∃ f, (collect input).fault = some f ∧
      (parseLexemes policy source input).tree = .error (.numeral f) := by
  obtain ⟨steps, c, g, hTracks, hStops⟩ := exists_stops policy source hTokens
  cases hStops with
  | raises failure =>
      rw [hFailures steps c g hTracks] at failure
      cases failure
  | accepts decides unread faultless spine_eq value_eq ends =>
      have hDerives := hTracks.derives_of_accept unread spine_eq
      obtain ⟨ns, rfl⟩ := hDerives.value_program hTokens value_eq
      refine .inl ⟨faultless, _, ns, hDerives, value_eq, ?_⟩
      rw [hTracks.parse_eq ends]
      rfl
  | misfits decides ends =>
      refine .inr (.inl ⟨g.rest, ⟨Spine.tokens g.spine, hTracks.tokens_eq⟩, ?_⟩)
      rw [hTracks.parse_eq ends]
      rfl
  | breaks faulty ends =>
      refine .inr (.inr ⟨_, faulty, ?_⟩)
      rw [hTracks.parse_eq ends]
      rfl

/-- Without element marks, only a function fails to build while the parse
tracks the automaton. -/
theorem Tracks.failure_of_no_hash (h : Tracks policy source input steps c g)
    (hTokens : ∀ t ∈ (collect input).tokens, t.Scanned)
    (hHash : ∀ t ∈ (collect input).tokens, t.kind ≠ .hash) {entry : Rule × Fault}
    (hFailure : c.failure? policy = some entry) : entry.1 = .functionDeclaration := by
  obtain ⟨rule, cause⟩ := entry
  obtain ⟨hRule, hBuild⟩ := failure?_eq_some_iff.mp hFailure
  have hDecision := h.mirrors.decision_of_rule? hRule
  obtain ⟨-, state, hLeads⟩ := h.linked.reduction hDecision
  have hGrown := (Growth.Step.reduce hDecision hLeads).sound h.linked
  have hValid : (node rule (Spine.parts (g.spine.take rule.size))).Valid :=
    hGrown.1.valid_of_mem (.head _)
  have hMem : ∀ t ∈ tokensAll (Spine.parts (g.spine.take rule.size)),
      t ∈ (collect input).tokens := by
    intro t ht
    rw [← h.tokens_eq, ← List.take_append_drop rule.size g.spine, Spine.tokens_append]
    exact List.mem_append_left _ (List.mem_append_right _ ht)
  have hRefuse : rule.canRefuse = true :=
    canRefuse_of_error hValid (fun t ht => hTokens t (hMem t ht)) (h.mirrors.values_eq rule) hBuild
  exact hValid.eq_functionDeclaration (fun t ht => hHash t (hMem t ht)) hRefuse

end stopping

/-- A parse of scanned tokens without element marks, in which no function fails
to build, returns a program exactly if the tokens have a derivation with that
value. There is at most one derivation. Where there is none, the parse fails
with a complaint about the first token that does not fit, or about the end of
the input. -/
theorem parseLexemes_returns_iff_derives (policy : ElementPolicy) (source : String)
    (input : List Lexeme) (hTokens : ∀ t ∈ (collect input).tokens, t.Scanned)
    (hFault : (collect input).fault = none)
    (hHash : ∀ t ∈ (collect input).tokens, t.kind ≠ .hash)
    (hFunctions : ∀ entry ∈ failuresOf policy source input, entry.1 ≠ .functionDeclaration) :
    (∀ ns, (parseLexemes policy source input).tree = .ok (.program ns) ↔
      ∃ d : Derivation, d.Derives (.n .program) (collect input).tokens ∧
        d.value policy = .ok (.node (.program ns))) ∧
    (∀ d e : Derivation, d.Derives (.n .program) (collect input).tokens →
      e.Derives (.n .program) (collect input).tokens → d = e) ∧
    ((¬ ∃ (d : Derivation) (ns : List Node), d.Derives (.n .program) (collect input).tokens ∧
        d.value policy = .ok (.node (.program ns))) →
      ∃ unread, unread <:+ (collect input).tokens ∧
        (parseLexemes policy source input).tree = .error (unfitting source (front unread))) := by
  have hFree : ∀ d : Derivation, d.Derives (.n .program) (collect input).tokens →
      d.ElementFree :=
    fun d hd => hd.valid.elementFree_of_no_hash (by rwa [hd.tokens_eq])
  have hUnique : ∀ d e : Derivation, d.Derives (.n .program) (collect input).tokens →
      e.Derives (.n .program) (collect input).tokens → d = e :=
    fun d e hd he => Growth.derives_unique hd he (hFree d hd) (hFree e he)
  have hFailures : ∀ steps c g, Tracks policy source input steps c g →
      c.failure? policy = none := by
    intro steps c g hTracks
    cases hFailure : c.failure? policy with
    | none => rfl
    | some entry =>
        have hRule := hTracks.failure_of_no_hash hTokens hHash hFailure
        exact absurd hRule (hFunctions entry (hTracks.mem_failuresOf hFailure))
  obtain ⟨-, d, ns, hDerives, hValue, hTree⟩ | ⟨unread, hSuffix, hTree⟩ |
      ⟨f, hSome, -⟩ :=
    tree_cases hTokens hFailures
  · refine ⟨fun ms => ⟨fun h => ?_, ?_⟩, hUnique,
      fun h => absurd ⟨d, ns, hDerives, hValue⟩ h⟩
    · rw [hTree] at h
      cases h
      exact ⟨d, hDerives, hValue⟩
    · rintro ⟨e, he, hValue'⟩
      rw [hUnique e d he hDerives, hValue] at hValue'
      cases hValue'
      exact hTree
  · refine ⟨fun ms => ⟨fun h => ?_, ?_⟩, hUnique, fun _ => ⟨unread, hSuffix, hTree⟩⟩
    · rw [hTree] at h
      cases h
    · rintro ⟨e, he, hValue'⟩
      rw [Parsed.tree, accepted_of_derives hTokens hFault he (hFree e he) hValue']
  · rw [hFault] at hSome
    cases hSome

/-- A function that returns. -/
def returningScript : String := "function twice(n:int):int \\\\ return n * 2 \\\\ \\\\"

/-- The statements of a program that a parse has returned. -/
def returned? : Except Fault Node → Option (List Node)
  | .ok (.program ns) => some ns
  | _ => none

theorem eq_of_returned? {tree : Except Fault Node} {ns : List Node} (h : returned? tree = some ns) :
    tree = .ok (.program ns) := by
  unfold returned? at h
  split at h
  · cases h
    rfl
  · cases h

theorem parse_returningScript :
    ∃ ns, (parse .refuse returningScript).tree = .ok (.program ns) := by
  have hSome : (returned? (parse .refuse returningScript).tree).isSome = true := by decide +kernel
  obtain ⟨ns, hReturned⟩ := Option.isSome_iff_exists.mp hSome
  exact ⟨ns, eq_of_returned? hReturned⟩

theorem failuresOf_returningScript :
    failuresOf .refuse returningScript (Lexer.lexemes returningScript) = [] := by
  have hNone : (failuresOf .refuse returningScript (Lexer.lexemes returningScript)).isEmpty =
      true := by
    decide +kernel
  exact List.isEmpty_iff.mp hNone

/-- The script is returned, so its tokens form a program. -/
theorem parseLexemes_returns_iff_derives_returningScript :
    ∃ (ns : List Node) (d : Derivation), (parse .refuse returningScript).tree =
      .ok (.program ns) ∧
      d.Derives (.n .program) (Lexer.scan returningScript).tokens ∧
      d.value .refuse = .ok (.node (.program ns)) := by
  obtain ⟨ns, hTree⟩ := parse_returningScript
  have hScan : (Lexer.scan returningScript).fault.isNone = true ∧
      ∀ t ∈ (Lexer.scan returningScript).tokens, t.kind ≠ .hash := by decide +kernel
  have hFunctions :
      ∀ entry ∈ failuresOf .refuse returningScript (Lexer.lexemes returningScript),
      entry.1 ≠ .functionDeclaration := by
    rw [failuresOf_returningScript]
    exact fun _ hEntry => nomatch hEntry
  obtain ⟨d, hDerives, hValue⟩ := ((parseLexemes_returns_iff_derives .refuse returningScript
    (Lexer.lexemes returningScript) (fun t ht => Lexer.scanned_of_mem_scan ht)
    (Option.isNone_iff_eq_none.mp hScan.1) hScan.2 hFunctions).1 ns).mp hTree
  exact ⟨ns, d, hTree, hDerives, hValue⟩

/-! ### Laid out texts -/

section texts

variable {policy : ElementPolicy} {source : String}

/-- A text is parsed to the program that its tokens mean. -/
theorem tree_of_means {contents : List (Terminal × Value)}
    (hLaid : Laid contents source.toList) {n : Node}
    (hMeans : Means policy (.n .program) contents (.node n)) :
    (parse policy source).tree = .ok n := by
  obtain ⟨hTokens, hFault⟩ := Lexer.collect_of_laid hLaid .start
  obtain ⟨d, hDerives, hFree, hValue⟩ := hMeans _ hTokens
  have hOutcome : (parse policy source).outcome = .accepted (.node n) :=
    accepted_of_derives (fun t ht => Lexer.scanned_of_mem_scan ht) hFault hDerives hFree hValue
  rw [Parsed.tree, hOutcome]

/-- Where the first tokens lead to a state that can do nothing with the next
one, the complaint is about that one, whatever stands behind it. -/
theorem tree_of_walk (contents : List (Terminal × Value)) {kind : Terminal} {value : Value}
    {unread : List (Terminal × Value)}
    (hLaid : Laid (contents ++ (kind, value) :: unread) source.toList) {state : Nat}
    (hWalk : walk? 0 (contents.map fun content => .t content.1) = some state)
    (hStuck : decision state kind = none) :
    ∃ t, (scan source).tokens[contents.length]? = some t ∧ t.content = (kind, value) ∧
      (parse policy source).tree = .error (unfitting source (.token t)) := by
  obtain ⟨hTokens, hFault⟩ := Lexer.collect_of_laid hLaid .start
  obtain ⟨read, others, hSplit, hRead, hOthers⟩ := List.map_eq_append_iff.mp hTokens
  obtain ⟨t, rest, rfl, hContent, -⟩ := List.map_eq_cons_iff.mp hOthers
  have hShifts : walk? 0 (read.map fun t => .t t.kind) = some state := by
    rw [← hRead, List.map_map] at hWalk
    exact hWalk
  obtain ⟨last, hTop, hAll⟩ := Growth.growsAll_leaves [] (t :: rest) hShifts
  obtain ⟨hRuns, upper, hLast, hParts⟩ := hAll.runs
  rw [tokensAll_leaves, ← hSplit] at hRuns
  have hEnded : (⟨last, t :: rest⟩ : Growth).decision = none := by
    rw [Growth.decision, hTop, headKind, show t.kind = kind from congrArg Prod.fst hContent]
    exact hStuck
  have hValued : Valued policy last := by
    rw [hLast, List.append_nil]
    exact .of_parts (hParts ▸ values_leaves policy read)
  refine ⟨t, ?_, hContent, tree_of_stuck (fun t ht => Lexer.scanned_of_mem_scan ht) hFault hRuns
    hEnded hValued⟩
  have hLength : read.length = contents.length := by rw [← hRead, List.length_map]
  have hScan : (scan source).tokens = read ++ t :: rest := hSplit
  rw [hScan, ← hLength, List.getElem?_append_right (Nat.le_refl _), Nat.sub_self]
  rfl

end texts

end PageScript.Parse
