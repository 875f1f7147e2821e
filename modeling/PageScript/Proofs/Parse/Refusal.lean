import PageScript.Proofs.Parse.Acceptance

/-! What a parse that returns a program has read. Main statement: the whole
text means that program exactly if no rule has failed to build on the way. A
rule that refuses does not make the parse fail: what has been read is dropped,
and the parse may return a program of the rest. -/
namespace PageScript.Parse

open Automaton PageScript.Derivation
open Lexer (Lexeme collect)

variable {policy : ElementPolicy} {source : String} {input : List Lexeme}

/-- A program that is returned without a failure is what all tokens mean.
Without a failure the parse tracks the automaton to the end. -/
theorem derives_of_returns (hTokens : ∀ t ∈ (collect input).tokens, t.Scanned) {ns : List Node}
    (hTree : (parseLexemes policy source input).tree = .ok (.program ns))
    (hFailures : failuresOf policy source input = []) :
    (collect input).fault = none ∧ ∃ d : Derivation,
      d.Derives (.n .program) (collect input).tokens ∧
      d.value policy = .ok (.node (.program ns)) := by
  have hNone : ∀ steps c g, Tracks policy source input steps c g →
      c.failure? policy = none := by
    intro steps c g hTracks
    rw [Option.eq_none_iff_forall_not_mem]
    intro entry hFailure
    have hMem := hTracks.mem_failuresOf hFailure
    rw [hFailures] at hMem
    cases hMem
  obtain ⟨hFault, d, ms, hDerives, hValue, hEq⟩ | ⟨unread, -, hEq⟩ | ⟨f, -, hEq⟩ :=
    tree_cases hTokens hNone
  · rw [hEq] at hTree
    cases hTree
    exact ⟨hFault, d, hDerives, hValue⟩
  · rw [hEq] at hTree
    cases hTree
  · rw [hEq] at hTree
    cases hTree

/-- A rule that fails to build for any but a syntactic reason leaves no
tree. -/
theorem syntactic_of_returns {n : Node} (hTree : (parseLexemes policy source input).tree = .ok n)
    {entry : Rule × Fault} (hEntry : entry ∈ failuresOf policy source input) :
    ∃ m, entry.2 = .syntactic m := by
  obtain ⟨steps, c, hBound, hLeads, hFailure⟩ := mem_failures_iff.mp hEntry
  by_contra hNot
  obtain ⟨out, hDone⟩ := step_of_failure? source hFailure fun m hm => hNot ⟨m, hm⟩
  rw [parseLexemes_of_leads hLeads hBound hDone] at hTree
  cases hTree

/-- Where elements are refused, a text in which a rule fails to build means
nothing. -/
theorem failuresOf_eq_nil_of_value {d : Derivation}
    (hDerives : d.Derives (.n .program) (Lexer.scan source).tokens) {p : Phrase}
    (hValue : d.value .refuse = .ok p) :
    failuresOf .refuse source (Lexer.lexemes source) = [] := by
  have hFree : d.ElementFree :=
    hDerives.valid.elementFree_of_value (by rw [hDerives.symbol_eq]; decide) hValue
  exact failuresOf_eq_nil_of_derives (fun t ht => Lexer.scanned_of_mem_scan ht) hDerives
    hFree hValue

/-- A program that is returned for a text is what all tokens of the text mean
exactly if no rule has failed to build. If one has, then the text means
nothing, and every such failure was a syntactic refusal that did not stop the
parse. -/
theorem parse_returns_whole_iff (source : String) (ns : List Node)
    (hTree : (parse .refuse source).tree = .ok (.program ns)) :
    (((Lexer.scan source).fault = none ∧
      ∃ d : Derivation, d.Derives (.n .program) (Lexer.scan source).tokens ∧
        d.value .refuse = .ok (.node (.program ns))) ↔
      failuresOf .refuse source (Lexer.lexemes source) = []) ∧
    (failuresOf .refuse source (Lexer.lexemes source) ≠ [] →
      ¬ ∃ (d : Derivation) (p : Phrase), d.Derives (.n .program) (Lexer.scan source).tokens ∧
        d.value .refuse = .ok p) ∧
    ∀ entry ∈ failuresOf .refuse source (Lexer.lexemes source), ∃ m,
      entry.2 = .syntactic m := by
  refine ⟨⟨?_, derives_of_returns (fun t ht => Lexer.scanned_of_mem_scan ht) hTree⟩, ?_, ?_⟩
  · rintro ⟨-, d, hDerives, hValue⟩
    exact failuresOf_eq_nil_of_value hDerives hValue
  · rintro hFailures ⟨d, p, hDerives, hValue⟩
    exact hFailures (failuresOf_eq_nil_of_value hDerives hValue)
  · intro entry hEntry
    exact syntactic_of_returns hTree hEntry

/-- A function without a return statement, and nothing else. -/
def returnlessScript : String := "function invalid():int \\\\ show \"No return\"\\\\ \\\\"

/-- A function without a return statement is dropped, and a program without
statements is returned. -/
theorem parse_returnlessScript : (parse .refuse returnlessScript).tree = .ok (.program []) := by
  have hEmpty : (returned? (parse .refuse returnlessScript).tree).any List.isEmpty = true := by
    decide +kernel
  obtain ⟨ns, hReturned, hNil⟩ := (Option.any_eq_true _ _).mp hEmpty
  rw [List.isEmpty_iff] at hNil
  rw [eq_of_returned? hReturned, hNil]

theorem failuresOf_returnlessScript :
    failuresOf .refuse returnlessScript (Lexer.lexemes returnlessScript) ≠ [] := by
  have hSome : (failuresOf .refuse returnlessScript (Lexer.lexemes returnlessScript)).isEmpty =
      false := by
    decide +kernel
  intro hNil
  rw [hNil] at hSome
  cases hSome

/-- The function that returns is read as a whole; the one that does not means
nothing. -/
theorem parse_returns_whole_iff_scripts :
    (∃ (ns : List Node) (d : Derivation), d.Derives (.n .program)
      (Lexer.scan returningScript).tokens ∧
      d.value .refuse = .ok (.node (.program ns))) ∧
    ¬ ∃ (d : Derivation) (p : Phrase),
      d.Derives (.n .program) (Lexer.scan returnlessScript).tokens ∧
      d.value .refuse = .ok p := by
  obtain ⟨ns, hTree⟩ := parse_returningScript
  obtain ⟨-, d, hDerives, hValue⟩ :=
    (parse_returns_whole_iff returningScript ns hTree).1.mpr failuresOf_returningScript
  exact ⟨⟨ns, d, hDerives, hValue⟩,
    (parse_returns_whole_iff returnlessScript [] parse_returnlessScript).2.1
      failuresOf_returnlessScript⟩

/-- The function without a return statement is accepted, and lost: the program
that is returned is empty, and no derivation of the tokens stands for it. -/
theorem parse_drops_returnless_function :
    (parse .refuse returnlessScript).tree = .ok (.program []) ∧
      ¬ ∃ d : Derivation, d.Derives (.n .program) (Lexer.scan returnlessScript).tokens ∧
        d.value .refuse = .ok (.node (.program [])) := by
  refine ⟨parse_returnlessScript, ?_⟩
  rintro ⟨d, hDerives, hValue⟩
  exact failuresOf_returnlessScript (failuresOf_eq_nil_of_value hDerives hValue)

end PageScript.Parse
