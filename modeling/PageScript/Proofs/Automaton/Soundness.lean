import PageScript.Proofs.Automaton.Growth

/-! What the automaton has read is what its spine derives. A state that reduces
by a rule is only ever reached by the symbols of that rule, which is checked
against all ways into the states; so every reduction makes a valid derivation,
and the tokens bound the number of steps. -/
namespace PageScript.Automaton

open PageScript.Derivation

/-- Taking back these symbols, the last one first, leads from the state only by
ways that carry them, and only to states where the phrase leads on. -/
def popsTo (phrase : Nonterminal) : List GrammarSymbol → Nat → Bool
  | [], state => (target? state (.n phrase)).isSome
  | X :: before, state =>
    !Nat.beq state 0 && (waysInto state).all fun e => e.symbol == X && popsTo phrase before e.source

/-- Every reduction of the table finds the symbols of its rule. -/
theorem reduction_popsTo {state : Nat} {row : Row} (hRow : row? state = some row) {rule : Rule}
    {kinds : List Terminal} (hRule : (rule, kinds) ∈ row.reductions) :
    popsTo rule.production.phrase rule.production.symbols.reverse state = true := by
  have hTable : (List.range stateCount).all (fun state => (row? state).all fun row =>
      row.reductions.all fun entry =>
        popsTo entry.1.production.phrase entry.1.production.symbols.reverse state) = true := by
    decide +kernel
  have hState := List.all_eq_true.mp hTable state (List.mem_range.mpr (lt_stateCount hRow))
  rw [hRow] at hState
  exact List.all_eq_true.mp hState _ hRule

/-- A state that is popped to along some symbols is entered by the last of them
only, and the state before it is popped to along the others. -/
theorem popsTo_cons {phrase : Nonterminal} {X : GrammarSymbol} {before : List GrammarSymbol}
    {state : Nat} (h : popsTo phrase (X :: before) state = true) {source : Nat} {Y : GrammarSymbol}
    (hState : state < stateCount) (hEdge : target? source Y = some state) :
    Y = X ∧ popsTo phrase before source = true := by
  rw [popsTo, Bool.and_eq_true, List.all_eq_true] at h
  have hWay := h.2 _ (mem_waysInto hEdge hState)
  rw [Bool.and_eq_true, beq_iff_eq] at hWay
  exact hWay

theorem popsTo_cons_zero (phrase : Nonterminal) (X : GrammarSymbol) (before : List GrammarSymbol) :
    popsTo phrase (X :: before) 0 = false := by
  simp [popsTo]

theorem lt_stateCount_of_target? {state target : Nat} {X : GrammarSymbol}
    (h : target? state X = some target) : state < stateCount := by
  obtain ⟨row, hRow, -⟩ := target?_eq_some_iff.mp h
  exact lt_stateCount hRow

/-- On a linked spine, the symbols that can be taken back are there. -/
theorem Linked.pop {spine : Spine} (hSpine : Linked spine) {phrase : Nonterminal}
    {Xs : List GrammarSymbol} (hTop : topOf spine < stateCount)
    (hPop : popsTo phrase Xs (topOf spine) = true) :
    ∃ upper below, spine = upper ++ below ∧ upper.map (fun frame => frame.2.symbol) = Xs ∧
      ∃ state, target? (topOf below) (.n phrase) = some state := by
  induction Xs generalizing spine with
  | nil => exact ⟨[], spine, rfl, rfl, Option.isSome_iff_exists.mp hPop⟩
  | cons X before ih =>
      cases hSpine with
      | nil => rw [topOf, popsTo_cons_zero] at hPop; cases hPop
      | @cons state d rest edge _ linked =>
          obtain ⟨hSymbol, hBefore⟩ := popsTo_cons hPop hTop edge
          obtain ⟨upper, below, rfl, hUpper, hLeads⟩ :=
            ih linked (lt_stateCount_of_target? edge) hBefore
          exact ⟨(state, d) :: upper, below, rfl,
            by rw [List.map_cons, hUpper, hSymbol], hLeads⟩

/-- A reduction finds derivations for all symbols of its rule, and a state to
go to. -/
theorem Linked.reduction {spine : Spine} (hSpine : Linked spine) {kind : Terminal} {rule : Rule}
    (hReduce : decision (topOf spine) kind = some (.reduce rule)) :
    (Spine.parts (spine.take rule.size)).map symbol = rule.production.symbols ∧
      ∃ state, target? (topOf (spine.drop rule.size)) (.n rule.production.phrase) =
        some state := by
  obtain ⟨_, h, _⟩ | ⟨row, rule', kinds, h, hRow, hRule⟩ | ⟨h, _⟩ :=
    decision_cases hReduce
  · cases h
  · cases h
    obtain ⟨upper, below, rfl, hUpper, hLeads⟩ :=
      hSpine.pop (lt_stateCount hRow) (reduction_popsTo hRow hRule)
    have hLength : upper.length = rule.size := by
      rw [← List.length_map (fun frame => frame.2.symbol), hUpper, List.length_reverse, Rule.size]
    rw [List.take_left' hLength, List.drop_left' hLength]
    refine ⟨?_, hLeads⟩
    rw [Spine.parts, List.map_map, List.map_reverse, List.reverse_eq_iff, ← hUpper]
    rfl
  · cases h

/-- What a reduction keeps, whatever token comes next: a linked spine, and all
tokens. It adds one rule. -/
theorem Linked.reduced {spine : Spine} (h : Linked spine) {kind : Terminal} {rule : Rule}
    {state : Nat} (hReduce : decision (topOf spine) kind = some (.reduce rule))
    (hLeads : target? (topOf (spine.drop rule.size)) (.n rule.production.phrase) = some state) :
    let next : Spine :=
      (state, .node rule (Spine.parts (spine.take rule.size))) :: spine.drop rule.size
    Linked next ∧ Spine.tokens next = Spine.tokens spine ∧
      Spine.size next = Spine.size spine + 1 := by
  intro next
  obtain ⟨hJoins, -⟩ := h.reduction hReduce
  have hSplit := List.take_append_drop rule.size spine
  have hValid : ∀ d ∈ Spine.parts (spine.take rule.size), d.Valid := by
    intro d hd
    obtain ⟨frame, hFrame, rfl⟩ := List.mem_map.mp hd
    exact h.valid_of_mem (List.mem_of_mem_take (List.mem_reverse.mp hFrame))
  have hBelow : Linked (spine.drop rule.size) := by
    rw [← hSplit] at h
    exact h.append_right
  refine ⟨.cons hLeads (.node hJoins hValid) hBelow, ?_, ?_⟩
  · conv => rhs; rw [← hSplit, Spine.tokens_append]
    simp only [next, Spine.tokens, Derivation.tokens]
  · conv => rhs; rw [← hSplit, Spine.size_append]
    simp only [next, Spine.size, Derivation.size]
    omega

namespace Growth

/-- What a step keeps: a linked spine, and all tokens. It adds one token or
rule. -/
theorem Step.sound {g next : Growth} (hStep : Step g next) (hSpine : Linked g.spine) :
    Linked next.spine ∧
      Spine.tokens next.spine ++ next.rest = Spine.tokens g.spine ++ g.rest ∧
      Spine.size next.spine = Spine.size g.spine + 1 := by
  cases hStep with
  | @shift spine t rest state shifts =>
      obtain ⟨target, h, hTarget⟩ | ⟨_, _, _, h, _⟩ | ⟨h, _⟩ := decision_cases shifts
      · cases h
        refine ⟨.cons hTarget (.leaf t) hSpine, ?_, rfl⟩
        simp [Spine.tokens, Derivation.tokens]
      · cases h
      · cases h
  | reduce reduces leads =>
      obtain ⟨hNext, hTokens, hSize⟩ := hSpine.reduced reduces leads
      exact ⟨hNext, congrArg (· ++ g.rest) hTokens, hSize⟩

/-- What a run keeps. Its number of steps is the number of tokens and rules
that it has added. -/
theorem Runs.sound {steps : Nat} {g last : Growth} (hRuns : Runs steps g last)
    (hSpine : Linked g.spine) :
    Linked last.spine ∧
      Spine.tokens last.spine ++ last.rest = Spine.tokens g.spine ++ g.rest ∧
      Spine.size last.spine = Spine.size g.spine + steps := by
  induction hRuns with
  | zero => exact ⟨hSpine, rfl, rfl⟩
  | succ first _ ih =>
      obtain ⟨hMiddle, hTokens, hSize⟩ := first.sound hSpine
      obtain ⟨hLast, hTokens', hSize'⟩ := ih hMiddle
      exact ⟨hLast, hTokens'.trans hTokens, by omega⟩

/-- The state that holds a whole program is only reached from the bottom. One
edge only leads into that state, and none leads into the state below. -/
theorem Linked.accepting {spine : Spine} (hSpine : Linked spine)
    (hTop : topOf spine = programState) :
    ∃ d, spine = [(programState, d)] ∧ d.symbol = .n .program := by
  have hWays : (waysInto programState).all (fun e =>
      Nat.beq e.source 0 && e.symbol == .n .program) = true := by decide +kernel
  have hZero : (waysInto 0).isEmpty = true := by decide +kernel
  cases hSpine with
  | nil => cases hTop
  | @cons state d below edge valid linked =>
      obtain rfl : state = programState := hTop
      have hEdge := mem_waysInto edge (by decide)
      have hSource := List.all_eq_true.mp hWays _ hEdge
      rw [Bool.and_eq_true, beq_iff_eq] at hSource
      have hBelow : topOf below = 0 := Nat.eq_of_beq_eq_true hSource.1
      cases linked with
      | nil => exact ⟨d, rfl, hSource.2⟩
      | cons edge' _ _ =>
          rw [topOf] at hBelow
          subst hBelow
          have hEdge' := mem_waysInto edge' (by decide)
          rw [List.isEmpty_iff] at hZero
          rw [hZero] at hEdge'
          cases hEdge'

/-- Where the automaton accepts, the tokens it has read form a program. -/
theorem Runs.derives {steps : Nat} {tokens : List Token} {last : Growth}
    (hRuns : Runs steps (start tokens) last) (hTop : topOf last.spine = programState)
    (hRest : last.rest = []) :
    ∃ d, last = finished d ∧ d.Derives (.n .program) tokens := by
  obtain ⟨hSpine, hTokens, -⟩ := hRuns.sound .nil
  obtain ⟨d, hLast, hSymbol⟩ := Linked.accepting hSpine hTop
  obtain ⟨spine, rest⟩ := last
  obtain rfl : spine = [(programState, d)] := hLast
  obtain rfl : rest = [] := hRest
  refine ⟨d, rfl, hSpine.valid_of_mem (.head _), hSymbol, ?_⟩
  simpa [Spine.tokens, start] using hTokens

end Growth

section bound

/-- A phrase in debt is followed on the spine by a symbol that makes up for
it. -/
theorem surplus_after_debt {p q r : Nat} {X Y : GrammarSymbol} (hFirst : target? p X = some q)
    (hSecond : target? q Y = some r) (hDebt : X.surplus < 0) : 2 ≤ Y.surplus := by
  have hTable : edges.all (fun e => decide (0 ≤ e.symbol.surplus) ||
      (row? e.target).all fun row => (row.edges e.target).all fun e =>
        decide (2 ≤ e.symbol.surplus)) = true := by
    decide +kernel
  have hEdge := List.all_eq_true.mp hTable _ (mem_edges_of_target? hFirst)
  obtain ⟨row, hRow, hTarget⟩ := target?_eq_some_iff.mp hSecond
  have hNot : ¬ 0 ≤ X.surplus := by omega
  simp only [hNot, decide_false, Bool.false_or, hRow] at hEdge
  exact of_decide_eq_true (List.all_eq_true.mp hEdge _ (Row.mem_edges hTarget q))

/-- The surplus of all symbols on a spine. -/
def Spine.surplus : Spine → Int
  | [] => 0
  | (_, d) :: below => Spine.surplus below + d.symbol.surplus

theorem neg_two_le_surplus (X : GrammarSymbol) : -2 ≤ X.surplus := by
  cases X with
  | t kind => simp [GrammarSymbol.surplus, GrammarSymbol.tokenPay]
  | n phrase => cases phrase <;> decide

/-- A spine is in debt only as far as its top is. -/
theorem Linked.min_surplus_le {state : Nat} {d : Derivation} {below : Spine}
    (h : Linked ((state, d) :: below)) :
    min 0 d.symbol.surplus ≤ Spine.surplus ((state, d) :: below) := by
  induction below generalizing state d with
  | nil => simp only [Spine.surplus]; omega
  | cons frame rest ih =>
      obtain ⟨state', d'⟩ := frame
      cases h with
      | cons edge valid linked =>
          have hBelow := ih linked
          cases linked with
          | cons edge' _ _ =>
              have hDebt := surplus_after_debt edge' edge
              have hMin := neg_two_le_surplus d'.symbol
              rw [Spine.surplus]
              omega

theorem Linked.neg_two_le_surplus {spine : Spine} (h : Linked spine) :
    -2 ≤ Spine.surplus spine := by
  cases spine with
  | nil => decide
  | cons frame below =>
      obtain ⟨state, d⟩ := frame
      have hTop := Automaton.neg_two_le_surplus d.symbol
      have hSpine := h.min_surplus_le
      omega

/-- The tokens on a linked spine pay for all rules on it, and for the surplus
of its symbols. -/
theorem Linked.size_add_surplus_le {spine : Spine} (h : Linked spine) :
    (Spine.size spine : Int) + Spine.surplus spine ≤
      GrammarSymbol.tokenPay * (Spine.tokens spine).length := by
  induction h with
  | nil => decide
  | cons _ valid _ ih =>
      have hTop := valid.size_add_surplus_le
      simp only [Spine.size, Spine.surplus, Spine.tokens, List.length_append]
      push_cast
      rw [Int.mul_add]
      omega

/-- The number of steps is bounded by the number of tokens read. -/
theorem Growth.Runs.steps_le {steps : Nat} {tokens : List Token} {last : Growth}
    (hRuns : Growth.Runs steps (Growth.start tokens) last) :
    steps ≤ GrammarSymbol.tokenPay * tokens.length + 2 := by
  obtain ⟨hSpine, hTokens, hSize⟩ := hRuns.sound .nil
  have hPaid := hSpine.size_add_surplus_le
  have hDebt := hSpine.neg_two_le_surplus
  have hLength : (Spine.tokens last.spine).length ≤ tokens.length := by
    have h := congrArg List.length hTokens
    simp only [List.length_append, Growth.start, Spine.tokens, List.length_nil] at h
    omega
  simp only [Growth.start, Spine.size, GrammarSymbol.tokenPay] at hSize hPaid ⊢
  omega

end bound

end PageScript.Automaton
