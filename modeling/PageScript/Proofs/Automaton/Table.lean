import PageScript.Proofs.Token.TerminalSet
import PageScript.Grammar.Automaton

/-! The automaton as a graph: where a symbol leads from a state, which ways
lead into a state, and what a state does before a token. -/
namespace PageScript.Automaton

/-- How many states stand in one block of the table. -/
def blockSize : Nat := 46

def blocks : List (List Row) :=
  [statesFrom0, statesFrom46, statesFrom92, statesFrom138, statesFrom184, statesFrom230,
    statesFrom276, statesFrom322]

/-- The row of a state, found in two short steps. -/
def row? (state : Nat) : Option Row :=
  (blocks[state / blockSize]?).bind (·[state % blockSize]?)

/-- In a list of blocks of one size an entry is found by the number of its
block and its place there. -/
theorem getElem?_flatten_of_length {α : Type} {size : Nat} (hSize : 0 < size)
    (lists : List (List α)) (h : ∀ list ∈ lists, list.length = size) (i : Nat) :
    lists.flatten[i]? = (lists[i / size]?).bind (·[i % size]?) := by
  induction lists generalizing i with
  | nil => simp
  | cons list rest ih =>
      have hLength : list.length = size := h list (.head _)
      rw [List.flatten_cons]
      by_cases hi : i < size
      · rw [List.getElem?_append_left (by omega), Nat.div_eq_of_lt hi, Nat.mod_eq_of_lt hi]
        rfl
      · have hRest := ih (fun list hl => h list (.tail _ hl)) (i - size)
        have hDiv : i / size = (i - size) / size + 1 := by
          rw [Nat.div_eq i size, if_pos ⟨hSize, by omega⟩]
        rw [List.getElem?_append_right (by omega), hLength, hRest, hDiv, List.getElem?_cons_succ,
          ← Nat.mod_eq_sub_mod (by omega : i ≥ size)]

/-- A row is found block by block as it is in the whole table, of which there
is no need then. -/
theorem rows_getElem? (state : Nat) : rows[state]? = row? state := by
  have hLength : ∀ list ∈ blocks, list.length = blockSize := by decide +kernel
  have hRows : rows = blocks.flatten.toArray := by
    simp only [rows, blocks, List.flatten_cons, List.flatten_nil, List.append_nil,
      List.append_assoc]
  rw [hRows, List.getElem?_toArray]
  exact getElem?_flatten_of_length (by decide) blocks hLength state

/-- What holds of every row of the table holds of the row of every state. -/
theorem row_of_all {p : Row → Bool} (h : blocks.all (·.all p) = true) {state : Nat} {row : Row}
    (hRow : row? state = some row) : p row = true := by
  obtain ⟨block, hBlock, hGet⟩ := Option.bind_eq_some_iff.mp hRow
  have hAll := List.all_eq_true.mp h block (List.mem_of_getElem? hBlock)
  exact List.all_eq_true.mp hAll row (List.mem_of_getElem? hGet)

def stateCount : Nat := 368

theorem lt_stateCount {state : Nat} {row : Row} (hRow : row? state = some row) :
    state < stateCount := by
  obtain ⟨block, hBlock, -⟩ := Option.bind_eq_some_iff.mp hRow
  have hLt : state / blockSize < blocks.length := (List.getElem?_eq_some_iff.mp hBlock).1
  have hBlocks : blocks.length = 8 := rfl
  simp only [blockSize, stateCount] at hLt ⊢
  omega

/-- Where a symbol leads from a row. -/
def Row.target? (row : Row) : GrammarSymbol → Option Nat
  | .t kind => row.shifts.lookup kind
  | .n phrase => row.gotos.lookup phrase

/-- Where a symbol leads from a state. -/
def target? (state : Nat) (X : GrammarSymbol) : Option Nat :=
  (row? state).bind (·.target? X)

/-- A symbol leads from a state to another exactly if the row of the state says
so. -/
theorem target?_eq_some_iff {state target : Nat} {X : GrammarSymbol} :
    target? state X = some target ↔ ∃ row, row? state = some row ∧
      row.target? X = some target := by
  rw [target?, Option.bind_eq_some_iff]

theorem goto?_eq_target? (state : Nat) (phrase : Nonterminal) :
    goto? state phrase = target? state (.n phrase) := by
  rw [goto?, rows_getElem?]
  rfl

/-- What a state does before a token: its only reduction if it does not look at
the token, and else what the table says. -/
def decision (state : Nat) (kind : Terminal) : Option Action :=
  match default? state with
  | some rule => some (.reduce rule)
  | none => action? state kind

/-- A state with one rule and nothing else reduces by it before it looks at a
token. -/
theorem decision_of_default {state : Nat} {rule : Rule} (h : default? state = some rule)
    (kind : Terminal) :
    decision state kind = some (.reduce rule) := by
  simp only [decision, h]

theorem decision_of_no_default {state : Nat} (h : default? state = none) (kind : Terminal) :
    decision state kind = action? state kind := by
  simp only [decision, h]

/-- A state that shifts some token has no rule that it reduces by unseen. -/
theorem default?_eq_none_of_shifts {state : Nat} {row : Row} (hRow : row? state = some row)
    (h : row.shifts ≠ []) : default? state = none := by
  rw [default?, rows_getElem?, hRow]
  simp only [Option.bind_eq_bind, Option.bind_some]
  split
  · contradiction
  · rfl

/-- Apart from accepting, a state shifts if its row has the token among the
shifts, and else reduces by the first rule that waits for it. -/
theorem action?_of_row {state : Nat} {row : Row} (hRow : row? state = some row)
    (hState : state ≠ programState) (kind : Terminal) :
    action? state kind = match row.shifts.lookup kind with
      | some target => some (.shift target)
      | none => (row.reductions.find? (·.2.contains kind)).map (.reduce ·.1) := by
  rw [action?, if_neg (fun h => hState h.1), rows_getElem?, hRow]
  rfl

theorem programState_row : row? programState = some ⟨[], [], []⟩ := by
  decide +kernel

/-- A token that leads somewhere is shifted. -/
theorem decision_of_target? {state target : Nat} {kind : Terminal}
    (h : target? state (.t kind) = some target) : decision state kind = some (.shift target) := by
  obtain ⟨row, hRow, hLookup⟩ := target?_eq_some_iff.mp h
  rw [Row.target?] at hLookup
  have hShifts : row.shifts ≠ [] := by
    intro hNil
    rw [hNil] at hLookup
    cases hLookup
  have hState : state ≠ programState := by
    rintro rfl
    rw [programState_row, Option.some.injEq] at hRow
    subst row
    exact hShifts rfl
  unfold decision
  simp only [default?_eq_none_of_shifts hRow hShifts, action?_of_row hRow hState, hLookup]

/-- The end of the input is not shifted. -/
theorem target?_endOfInput (state : Nat) : target? state (.t .endOfInput) = none := by
  have hTable : blocks.all (·.all fun row => (row.shifts.lookup .endOfInput).isNone) = true := by
    decide +kernel
  cases hTarget : target? state (.t .endOfInput) with
  | none => rfl
  | some target =>
      obtain ⟨row, hRow, hLookup⟩ := target?_eq_some_iff.mp hTarget
      have hNone := row_of_all hTable hRow
      rw [Row.target?] at hLookup
      rw [hLookup] at hNone
      cases hNone

/-- Everything a state can do before a token, with the part of its row that
says so. A rule that a state applies unseen stands in its row, too. -/
theorem decision_cases {state : Nat} {kind : Terminal} {action : Action}
    (h : decision state kind = some action) :
    (∃ target, action = .shift target ∧ target? state (.t kind) = some target) ∨
    (∃ row rule kinds, action = .reduce rule ∧ row? state = some row ∧
      (rule, kinds) ∈ row.reductions) ∨
    (action = .accept ∧ state = programState ∧ kind = .endOfInput) := by
  unfold decision at h
  split at h
  · rename_i rule hDefault
    rw [default?, rows_getElem?, Option.bind_eq_bind, Option.bind_eq_some_iff] at hDefault
    obtain ⟨row, hRow, hOnly⟩ := hDefault
    split at hOnly
    · rename_i kind hShifts hReductions
      cases hOnly
      cases h
      refine .inr (.inl ⟨row, rule, [kind], rfl, hRow, ?_⟩)
      rw [hReductions]
      exact .head _
    · cases hOnly
  · rw [action?] at h
    split at h
    · rename_i hAccept
      cases h
      exact .inr (.inr ⟨rfl, hAccept⟩)
    · rw [rows_getElem?, Option.bind_eq_bind, Option.bind_eq_some_iff] at h
      obtain ⟨row, hRow, hAction⟩ := h
      split at hAction
      · rename_i target hLookup
        cases hAction
        exact .inl ⟨target, rfl, target?_eq_some_iff.mpr ⟨row, hRow, hLookup⟩⟩
      · obtain ⟨⟨rule, kinds⟩, hFind, rfl⟩ := Option.map_eq_some_iff.mp hAction
        exact .inr (.inl ⟨row, rule, kinds, rfl, hRow, List.mem_of_find?_eq_some hFind⟩)

/-- The token kinds before which a state reduces by a rule. -/
def reducesBefore (state : Nat) (rule : Rule) : TerminalSet :=
  match row? state with
  | some ⟨_, [(r, kinds)], _⟩ => if r = rule then .ofList kinds else .ofList []
  | _ => .ofList []

/-- No state could both shift and reduce before the same token. -/
theorem lookup_shifts_eq_none {state : Nat} {row : Row} (hRow : row? state = some row) {rule : Rule}
    {kinds : List Terminal} (hRule : (rule, kinds) ∈ row.reductions) {kind : Terminal}
    (hKind : kind ∈ kinds) : row.shifts.lookup kind = none := by
  have hTable : blocks.all (·.all fun row => row.reductions.all fun entry =>
      entry.2.all fun kind => (row.shifts.lookup kind).isNone) = true := by decide +kernel
  have hEntry := List.all_eq_true.mp (row_of_all hTable hRow) _ hRule
  exact Option.isNone_iff_eq_none.mp (List.all_eq_true.mp hEntry kind hKind)

/-- A state reduces by a rule before the tokens for which its row lists the
rule. Such a token is not shifted, and the state is not the accepting one. -/
theorem decision_of_reducesBefore {state : Nat} {rule : Rule} {kind : Terminal}
    (h : kind ∈ reducesBefore state rule) : decision state kind = some (.reduce rule) := by
  unfold reducesBefore at h
  split at h
  · rename_i shifts r kinds gotos hRow
    split at h
    · rename_i hRule
      subst r
      rw [TerminalSet.mem_ofList] at h
      have hShift := lookup_shifts_eq_none hRow (.head _) h
      have hState : state ≠ programState := by
        rintro rfl
        rw [programState_row] at hRow
        cases hRow
      unfold decision
      split
      · rename_i other hDefault
        rw [default?, rows_getElem?, hRow] at hDefault
        simp only [Option.bind_eq_bind, Option.bind_some] at hDefault
        split at hDefault
        · rename_i hOnly
          cases hOnly
          cases hDefault
          rfl
        · cases hDefault
      · rw [action?_of_row hRow hState, hShift]
        simp [h]
    · simp at h
  · simp at h

/-- A way from one state to another, by a symbol. -/
structure Edge where
  source : Nat
  symbol : GrammarSymbol
  target : Nat

/-- The ways that leave a state. -/
def Row.edges (row : Row) (state : Nat) : List Edge :=
  row.shifts.map (fun entry => ⟨state, .t entry.1, entry.2⟩) ++
    row.gotos.map fun entry => ⟨state, .n entry.1, entry.2⟩

/-- All ways of the automaton. -/
def edges : List Edge :=
  (List.range stateCount).flatMap fun state => match row? state with
    | some row => row.edges state
    | none => []

/-- How many states share one list of the ways into them. -/
def bucketSize : Nat := 16

def buckets : List (List Edge) :=
  (List.range (stateCount / bucketSize)).map fun bucket =>
    edges.filter fun e => Nat.beq (e.target / bucketSize) bucket

/-- The ways into a state. -/
def waysInto (state : Nat) : List Edge :=
  match buckets[state / bucketSize]? with
  | some bucket => bucket.filter fun e => Nat.beq e.target state
  | none => []

theorem mem_of_lookup {α β : Type} [DecidableEq α] {key : α} {value : β}
    {entries : List (α × β)} (h : entries.lookup key = some value) :
    (key, value) ∈ entries := by
  induction entries with
  | nil => cases h
  | cons entry rest ih =>
      obtain ⟨k, v⟩ := entry
      rw [List.lookup_cons] at h
      split at h
      · rename_i hKey
        cases h
        rw [beq_iff_eq.mp hKey]
        exact .head _
      · exact .tail _ (ih h)

/-- Where a symbol leads from a row is an edge of the row. -/
theorem Row.mem_edges {row : Row} {X : GrammarSymbol} {target : Nat}
    (h : row.target? X = some target) (state : Nat) :
    ⟨state, X, target⟩ ∈ row.edges state := by
  rw [Row.edges, List.mem_append]
  cases X with
  | t kind => exact .inl (List.mem_map.mpr ⟨_, mem_of_lookup h, rfl⟩)
  | n phrase => exact .inr (List.mem_map.mpr ⟨_, mem_of_lookup h, rfl⟩)

theorem mem_edges_of_target? {state target : Nat} {X : GrammarSymbol}
    (h : target? state X = some target) : ⟨state, X, target⟩ ∈ edges := by
  obtain ⟨row, hRow, hTarget⟩ := target?_eq_some_iff.mp h
  refine List.mem_flatMap.mpr ⟨state, List.mem_range.mpr (lt_stateCount hRow), ?_⟩
  simp only [hRow]
  exact Row.mem_edges hTarget state

/-- Every way into a state is found. -/
theorem mem_waysInto {source state : Nat} {X : GrammarSymbol} (h : target? source X = some state)
    (hState : state < stateCount) : ⟨source, X, state⟩ ∈ waysInto state := by
  have hBucket : state / bucketSize < stateCount / bucketSize := by
    simp only [bucketSize, stateCount] at hState ⊢
    omega
  simp [waysInto, buckets, List.getElem?_map, List.getElem?_range hBucket, mem_edges_of_target? h]

end PageScript.Automaton
