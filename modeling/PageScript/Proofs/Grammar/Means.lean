import Mathlib.Data.List.Forall2
import PageScript.Proofs.Grammar.Formed
import PageScript.Proofs.Token.Laid

/-! What written tokens mean, wherever they stand. Meanings are put together
rule by rule, and an expression can be taken for one of every looser kind. -/
namespace PageScript

/-- Tokens with these contents form this symbol, without elements, and come to
this phrase. -/
def Means (policy : ElementPolicy) (symbol : GrammarSymbol) (contents : List (Terminal × Value))
    (p : Phrase) : Prop :=
  ∀ tokens : List Token, tokens.map Token.content = contents →
    ∃ d : Derivation, d.Derives symbol tokens ∧ d.ElementFree ∧ d.value policy = .ok p

/-- The contents, cut into pieces, form these symbols in order. -/
inductive MeanAll (policy : ElementPolicy) :
    List GrammarSymbol → List (Terminal × Value) → List Phrase → Prop where
  | nil : MeanAll policy [] [] []
  | cons {X : GrammarSymbol} {Xs : List GrammarSymbol} {contents others : List (Terminal × Value)}
      {p : Phrase}
      {ps : List Phrase} (first : Means policy X contents p) (rest : MeanAll policy Xs others ps) :
      MeanAll policy (X :: Xs) (contents ++ others) (p :: ps)

section meanings

open PageScript.Derivation

variable {policy : ElementPolicy}

theorem means_token (policy : ElementPolicy) (kind : Terminal) (value : Value) :
    Means policy (.t kind) [(kind, value)] (.leaf value) := by
  intro tokens hTokens
  obtain ⟨t, rfl, hContent⟩ := List.map_eq_singleton_iff.mp hTokens
  obtain ⟨rfl, rfl⟩ := Prod.mk.inj hContent
  exact ⟨.leaf t, ⟨.leaf t, rfl, rfl⟩, .leaf t, rfl⟩

/-- Tokens that form symbols in a row have derivations in a row, which cover
them and come to the phrases. -/
theorem MeanAll.exists_derivations {Xs : List GrammarSymbol} {contents : List (Terminal × Value)}
    {ps : List Phrase} (h : MeanAll policy Xs contents ps) {tokens : List Token}
    (hTokens : tokens.map Token.content = contents) :
    ∃ ds : List Derivation, ds.map symbol = Xs ∧ tokensAll ds = tokens ∧
      values policy ds = .ok ps ∧
      ∀ d ∈ ds, d.Valid ∧ d.ElementFree := by
  induction h generalizing tokens with
  | nil =>
      cases List.map_eq_nil_iff.mp hTokens
      exact ⟨[], rfl, rfl, rfl, List.forall_mem_nil _⟩
  | cons first _ ih =>
      obtain ⟨front, back, rfl, hFront, hBack⟩ := List.map_eq_append_iff.mp hTokens
      obtain ⟨d, hDerives, hFree, hValue⟩ := first front hFront
      obtain ⟨ds, hSymbols, hRest, hValues, hAll⟩ := ih hBack
      refine ⟨d :: ds, ?_, ?_, values_cons_ok hValue hValues,
        List.forall_mem_cons.mpr ⟨⟨hDerives.valid, hFree⟩, hAll⟩⟩
      · rw [List.map_cons, hDerives.symbol_eq, hSymbols]
      · rw [tokensAll, hDerives.tokens_eq, hRest]

theorem MeanAll.single {X : GrammarSymbol} {contents : List (Terminal × Value)} {p : Phrase}
    (h : Means policy X contents p) : MeanAll policy [X] contents [p] := by
  rw [← List.append_nil contents]
  exact .cons h .nil

/-- Tokens stand for themselves, one by one. -/
theorem MeanAll.tokens (policy : ElementPolicy) (contents : List (Terminal × Value)) :
    MeanAll policy (contents.map fun content => .t content.1) contents
      (contents.map fun content => .leaf content.2) := by
  induction contents with
  | nil => exact .nil
  | cons content others ih => exact .cons (means_token policy content.1 content.2) ih

/-- A rule that can neither refuse nor join elements means what it builds from
its parts. -/
theorem means_node (rule : Rule) {contents : List (Terminal × Value)} {ps : List Phrase}
    {p : Phrase} (hRule : rule.elementFree = true ∧ rule.canRefuse = false)
    (h : MeanAll policy rule.production.symbols contents ps) (hJoin : Build.join rule ps = some p) :
    Means policy (.n rule.production.phrase) contents p := by
  intro tokens hTokens
  obtain ⟨ds, hSymbols, hAll, hValues, hParts⟩ := h.exists_derivations hTokens
  refine ⟨.node rule ds, ⟨.node hSymbols fun d hd => (hParts d hd).1, rfl, hAll⟩,
    .node hRule.1 fun d hd => (hParts d hd).2, ?_⟩
  rw [value_node_ok hValues]
  exact Build.build_of_join policy hRule.2 hJoin

/-- A rule that joins one symbol. -/
theorem means_single (rule : Rule) {X : GrammarSymbol} {contents : List (Terminal × Value)}
    {q p : Phrase} (hRule : rule.elementFree = true ∧ rule.canRefuse = false)
    (hSymbols : rule.production.symbols = [X]) (h : Means policy X contents q)
    (hJoin : Build.join rule [q] = some p) :
    Means policy (.n rule.production.phrase) contents p := by
  refine means_node rule hRule ?_ hJoin
  rw [hSymbols]
  exact .single h

/-! ### Operands -/

/-- A literal or a name, which is a token of its own. -/
theorem means_primary (rule : Rule) {kind : Terminal} {value : Value} {e : Node}
    (hRule : rule.elementFree = true ∧ rule.canRefuse = false)
    (hProduction : rule.production = ⟨.primary, [.t kind]⟩)
    (hJoin : Build.join rule [.leaf value] = some (.node e)) :
    Means policy (.n .postfixed) [(kind, value)] (.node e) := by
  have hPrimary := means_single rule hRule (congrArg Rule.Production.symbols hProduction)
    (means_token policy kind value) hJoin
  rw [hProduction] at hPrimary
  exact means_single .postfixedPlain ⟨rfl, rfl⟩ rfl hPrimary rfl

/-- A number behind a minus sign means the negative number, as one literal. -/
theorem means_negative (policy : ElementPolicy) (n : Nat) :
    Means policy (.n .postfixed) [(.minus, .text "-"), (.integer, .int n)]
      (.node (.number (.int (-n)))) :=
  means_single .postfixedPlain ⟨rfl, rfl⟩ rfl
    (means_node .negativeInteger ⟨rfl, rfl⟩
      (.cons (means_token _ _ _) (.single (means_token _ _ _))) rfl) rfl

/-- A point and a name behind an expression mean the member of that name. -/
theorem means_member {contents : List (Terminal × Value)} {e : Node}
    (h : Means policy (.n .postfixed) contents (.node e)) (name : String) :
    Means policy (.n .postfixed) (contents ++ [(.dot, .text "."), (.identifier, .text name)])
      (.node (.member e name)) :=
  means_node .member ⟨rfl, rfl⟩
    (.cons h (.cons (means_token _ _ _) (.single (means_token _ _ _)))) rfl

/-- Arguments in parentheses behind an expression mean a call of it. -/
theorem means_call {contents given : List (Terminal × Value)} {f : Node} {arguments : List Node}
    (h : Means policy (.n .postfixed) contents (.node f))
    (hGiven : Means policy (.n .arguments) given (.nodes arguments)) :
    Means policy (.n .postfixed) (contents ++
      (.openParen, .text "(") :: (given ++ [(.closeParen, .text ")")]))
      (.node (.call f arguments)) :=
  means_node .call ⟨rfl, rfl⟩
    (.cons h (.cons (means_token _ _ _) (.cons hGiven (.single (means_token _ _ _))))) rfl

theorem means_parenthesised {contents : List (Terminal × Value)} {e : Node}
    (h : Means policy (.n .expression) contents (.node e)) :
    Means policy (.n .postfixed) ((.openParen, .text "(") ::
      (contents ++ [(.closeParen, .text ")")])) (.node e) :=
  means_single .postfixedPlain ⟨rfl, rfl⟩ rfl
    (means_node .parenthesised ⟨rfl, rfl⟩
      (.cons (means_token _ _ _) (.cons h (.single (means_token _ _ _)))) rfl) rfl

/-! ### Levels of expressions -/

/-- The kinds of expressions, from the tightest to the loosest. -/
def Nonterminal.level : Nat → Nonterminal
  | 0 => .postfixed
  | 1 => .unary
  | 2 => .product
  | 3 => .sum
  | 4 => .relation
  | 5 => .equality
  | 6 => .conjunction
  | 7 => .disjunction
  | 8 => .assignment
  | _ => .expression

open Nonterminal (level)

/-- One rule takes an expression for one of the next level, as it is. -/
theorem means_level_succ {k : Nat} (hk : k < 9) {contents : List (Terminal × Value)} {p : Phrase}
    (h : Means policy (.n (level k)) contents p) :
    Means policy (.n (level (k + 1))) contents p := by
  match k, hk with
  | 0, _ => exact means_single .unaryPlain ⟨rfl, rfl⟩ rfl h rfl
  | 1, _ => exact means_single .productPlain ⟨rfl, rfl⟩ rfl h rfl
  | 2, _ => exact means_single .sumPlain ⟨rfl, rfl⟩ rfl h rfl
  | 3, _ => exact means_single .relationPlain ⟨rfl, rfl⟩ rfl h rfl
  | 4, _ => exact means_single .equalityPlain ⟨rfl, rfl⟩ rfl h rfl
  | 5, _ => exact means_single .conjunctionPlain ⟨rfl, rfl⟩ rfl h rfl
  | 6, _ => exact means_single .disjunctionPlain ⟨rfl, rfl⟩ rfl h rfl
  | 7, _ => exact means_single .assignmentPlain ⟨rfl, rfl⟩ rfl h rfl
  | 8, _ => exact means_single .expression ⟨rfl, rfl⟩ rfl h rfl

/-- An expression of one level can be taken for one of every higher level. The
induction is on the higher level, one rule for each step. -/
theorem means_level {k m : Nat} (hkm : k ≤ m) (hm : m ≤ 9) {contents : List (Terminal × Value)}
    {p : Phrase} (h : Means policy (.n (level k)) contents p) :
    Means policy (.n (level m)) contents p := by
  induction hkm with
  | refl => exact h
  | step _ ih => exact means_level_succ hm (ih (Nat.le_of_succ_le hm))

/-- An operand is an expression. -/
theorem means_expression {contents : List (Terminal × Value)} {p : Phrase}
    (h : Means policy (.n .postfixed) contents p) : Means policy (.n .expression) contents p :=
  means_level (Nat.zero_le 9) (Nat.le_refl 9) h

/-- How an operator is read: its token, the rule that joins its operands, and
the level of the result, which is that of the left operand. The right operand
is tighter. -/
structure Reading where
  operator : String
  kind : Terminal
  rule : Rule
  level : Nat

/-- The operators that stand between two operands. -/
def readings : List Reading :=
  [⟨"||", .or, .disjunction, 7⟩, ⟨"&&", .and, .conjunction, 6⟩,
    ⟨"==", .same, .equalitySame, 5⟩, ⟨"!=", .differs, .equalityDiffers, 5⟩,
    ⟨"<", .less, .relationLess, 4⟩, ⟨">", .greater, .relationGreater, 4⟩,
    ⟨"<=", .lessEqual, .relationLessEqual, 4⟩,
    ⟨">=", .greaterEqual, .relationGreaterEqual, 4⟩, ⟨"+", .plus, .sumPlus, 3⟩,
    ⟨"-", .minus, .sumMinus, 3⟩, ⟨"*", .times, .productTimes, 2⟩,
    ⟨"/", .divide, .productDivide, 2⟩]

theorem exists_reading {operator : String} (h : operator ∈ binaryOperators) :
    ∃ r ∈ readings, r.operator = operator :=
  List.mem_map.mp (show operator ∈ readings.map Reading.operator from h)

/-- For each operator, its rule joins operands of its own level on the left and
of the level below on the right, so operators of one level are read from the
left. -/
theorem readings_join : ∀ r ∈ readings,
    r.rule.production = ⟨level r.level,
      [.n (level r.level), .t r.kind, .n (level (r.level - 1))]⟩ ∧
      (r.rule.elementFree = true ∧ r.rule.canRefuse = false) ∧ r.level ≤ 9 ∧
        (r.operator, r.kind) ∈ Terminal.marks := by
  decide

theorem join_reading {r : Reading} (h : r ∈ readings) (left right : Node) :
    Build.join r.rule [.node left, .leaf (.text r.operator), .node right] =
      some (.node (.binary left r.operator right)) := by
  simp only [readings, List.mem_cons, List.not_mem_nil, or_false] at h
  rcases h with rfl | rfl | rfl | rfl | rfl | rfl | rfl | rfl | rfl | rfl | rfl | rfl <;> rfl

/-- An operation on two operands, each of which stands for itself. An operand
is as tight as can be, so it fits on both sides of every operator. -/
theorem means_operation {r : Reading} (hr : r ∈ readings) {as bs : List (Terminal × Value)}
    {left right : Node} (hLeft : Means policy (.n .postfixed) as (.node left))
    (hRight : Means policy (.n .postfixed) bs (.node right)) :
    Means policy (.n .expression) (as ++ (r.kind, .text r.operator) :: bs)
      (.node (.binary left r.operator right)) := by
  obtain ⟨hProduction, hRule, hLevel, -⟩ := readings_join r hr
  have hFirst : Means policy (.n (level r.level)) as (.node left) :=
    means_level (Nat.zero_le _) hLevel hLeft
  have hSecond : Means policy (.n (level (r.level - 1))) bs (.node right) :=
    means_level (Nat.zero_le _) (Nat.le_trans (Nat.sub_le _ _) hLevel) hRight
  have hParts : MeanAll policy r.rule.production.symbols (as ++ (r.kind, .text r.operator) :: bs)
      [.node left, .leaf (.text r.operator), .node right] := by
    rw [hProduction]
    exact .cons hFirst (.cons (means_token _ _ _) (.single hSecond))
  have hJoined := means_node r.rule hRule hParts (join_reading hr left right)
  rw [hProduction] at hJoined
  exact means_level hLevel (Nat.le_refl 9) hJoined

theorem means_negation {contents : List (Terminal × Value)} {e : Node}
    (h : Means policy (.n .postfixed) contents (.node e)) :
    Means policy (.n .expression) ((.not, .text "!") :: contents) (.node (.unary "!" e)) := by
  have hOperand : Means policy (.n (level 1)) contents (.node e) := means_level_succ (by decide) h
  have hNegation : Means policy (.n (level 1)) ((.not, .text "!") :: contents)
      (.node (.unary "!" e)) :=
    means_node .negation ⟨rfl, rfl⟩ (.cons (means_token _ _ _) (.single hOperand)) rfl
  exact means_level (by decide) (Nat.le_refl 9) hNegation

/-- The word for waiting before a closed expression means waiting for it. -/
theorem means_await {contents : List (Terminal × Value)} {e : Node}
    (h : Means policy (.n .postfixed) contents (.node e)) :
    Means policy (.n .expression) ((.await, .text "await") :: contents) (.node (.await e)) := by
  have hOperand : Means policy (.n (level 1)) contents (.node e) := means_level_succ (by decide) h
  have hAwait : Means policy (.n (level 1)) ((.await, .text "await") :: contents)
      (.node (.await e)) :=
    means_node .awaiting ⟨rfl, rfl⟩ (.cons (means_token _ _ _) (.single hOperand)) rfl
  exact means_level (by decide) (Nat.le_refl 9) hAwait

/-- The operators of assignments. -/
def assignments : List (String × Terminal) := [("=", .equals), ("+=", .plusEquals)]

theorem exists_assignment {operator : String} (h : operator = "=" ∨ operator = "+=") :
    ∃ kind, (operator, kind) ∈ assignments ∧ (operator, kind) ∈ Terminal.marks := by
  rcases h with rfl | rfl
  · exact ⟨.equals, by decide, by decide⟩
  · exact ⟨.plusEquals, by decide, by decide⟩

/-- A name, a mark of assignment and a closed expression mean an operation with
the name on its left. -/
theorem means_assignment {operator : String} {kind : Terminal}
    (hListed : (operator, kind) ∈ assignments) (name : String)
    {contents : List (Terminal × Value)} {e : Node}
    (h : Means policy (.n .postfixed) contents (.node e)) :
    Means policy (.n .expression) ((.identifier, .text name) :: (kind, .text operator) :: contents)
      (.node (.binary (.identifier name) operator e)) := by
  have hRight : Means policy (.n .expression) contents (.node e) := means_expression h
  have hAssigned : Means policy (.n (level 8))
      ((.identifier, .text name) :: (kind, .text operator) :: contents)
      (.node (.binary (.identifier name) operator e)) := by
    simp only [assignments, List.mem_cons, List.not_mem_nil, or_false, Prod.mk.injEq] at hListed
    rcases hListed with ⟨rfl, rfl⟩ | ⟨rfl, rfl⟩
    · exact means_node .assign ⟨rfl, rfl⟩
        (.cons (means_token _ _ _) (.cons (means_token _ _ _) (.single hRight))) rfl
    · exact means_node .assignSum ⟨rfl, rfl⟩
        (.cons (means_token _ _ _) (.cons (means_token _ _ _) (.single hRight))) rfl
  exact means_level_succ (by decide) hAssigned

/-! ### Arguments and statements -/

/-- The tokens of arguments, with a comma between each two of them. -/
def commaSeparated : List (List (Terminal × Value)) → List (Terminal × Value)
  | [] => []
  | first :: others => first ++ others.flatMap ((.comma, .text ",") :: ·)

/-- A list to which one rule adds nodes at the end, each written in its own
way. Such a list is left recursive, so the induction carries what has been read
so far. -/
theorem means_append {X : GrammarSymbol} {P : List (Terminal × Value) → Node → Prop}
    {spell : List (Terminal × Value) → List (Terminal × Value)}
    (hMore :
      ∀ {given : List (Terminal × Value)} {earlier : List Node} {contents : List (Terminal ×
        Value)} {n : Node}, Means policy X given (.nodes earlier) → P contents n →
        Means policy X (given ++ spell contents) (.nodes (earlier ++ [n])))
    {given : List (Terminal × Value)} {earlier : List Node}
    (h : Means policy X given (.nodes earlier)) {written : List (List (Terminal × Value))}
    {later : List Node} (hLater : List.Forall₂ P written later) :
    Means policy X (given ++ written.flatMap spell) (.nodes (earlier ++ later)) := by
  induction hLater generalizing given earlier with
  | nil =>
      rw [List.flatMap_nil, List.append_nil, List.append_nil]
      exact h
  | cons first _ ih =>
      have hAll := ih (hMore h first)
      rw [List.append_assoc, List.append_assoc] at hAll
      exact hAll

/-- Arguments are added one by one behind those that have been read. -/
theorem means_arguments_append {given : List (Terminal × Value)} {earlier : List Node}
    (h : Means policy (.n .arguments) given (.nodes earlier))
    {written : List (List (Terminal × Value))} {later : List Node}
    (hLater : List.Forall₂ (fun contents e => Means policy (.n .expression) contents (.node e))
      written later) :
    Means policy (.n .arguments) (given ++ written.flatMap ((.comma, .text ",") :: ·))
      (.nodes (earlier ++ later)) := by
  refine means_append ?_ h hLater
  intro given earlier contents e hGiven hNext
  exact means_node .argumentsMore ⟨rfl, rfl⟩
    (.cons hGiven (.cons (means_token _ _ _) (.single hNext))) rfl

/-- Expressions with commas between them mean a list of arguments. The list is
left recursive, so the induction carries what has been read so far. -/
theorem means_arguments {written : List (List (Terminal × Value))} {arguments : List Node}
    (h : List.Forall₂ (fun contents e => Means policy (.n .expression) contents (.node e)) written
      arguments) :
    Means policy (.n .arguments) (commaSeparated written) (.nodes arguments) := by
  cases h with
  | nil =>
      have hNothing : Means policy (.n .nothing) [] .nothing :=
        means_node .nothing ⟨rfl, rfl⟩ .nil rfl
      exact means_single .argumentsAbsent ⟨rfl, rfl⟩ rfl hNothing rfl
  | cons first others =>
      exact means_arguments_append (means_single .argumentsOne ⟨rfl, rfl⟩ rfl first rfl) others

/-- A program is its statements, each with its terminator. -/
theorem means_statements {written : List (List (Terminal × Value))} {ns : List Node}
    (h : List.Forall₂ (fun contents n => Means policy (.n .statement) contents (.node n))
      written ns) :
    Means policy (.n .program) (written.flatMap (· ++ [(.terminator, .text "\\\\")]))
      (.node (.program ns)) := by
  have hItem {contents : List (Terminal × Value)} {n : Node}
      (hStatement : Means policy (.n .statement) contents (.node n)) :
      Means policy (.n .item) (contents ++ [(.terminator, .text "\\\\")]) (.node n) :=
    means_node .itemStatement ⟨rfl, rfl⟩ (.cons hStatement (.single (means_token _ _ _))) rfl
  cases h with
  | nil =>
      have hNothing : Means policy (.n .nothing) [] .nothing :=
        means_node .nothing ⟨rfl, rfl⟩ .nil rfl
      exact means_single .programEmpty ⟨rfl, rfl⟩ rfl hNothing rfl
  | cons first others =>
      have hOne := means_single .itemsOne ⟨rfl, rfl⟩ rfl (hItem first) rfl
      have hAll := means_append (fun hGiven hNext =>
        means_node .itemsMore ⟨rfl, rfl⟩ (.cons hGiven (.single (hItem hNext))) rfl) hOne others
      exact means_single .programItems ⟨rfl, rfl⟩ rfl hAll rfl

theorem means_expressionStatement {contents : List (Terminal × Value)} {e : Node}
    (h : Means policy (.n .expression) contents (.node e)) :
    Means policy (.n .statement) contents (.node (.expressionStatement e)) :=
  means_single .statementExpression ⟨rfl, rfl⟩ rfl
    (means_single .expressionStatement ⟨rfl, rfl⟩ rfl h rfl) rfl

/-- The whole program that is one expression. -/
theorem means_program {contents : List (Terminal × Value)} {e : Node}
    (h : Means policy (.n .expression) contents (.node e)) :
    Means policy (.n .program) (contents ++ [(.terminator, .text "\\\\")])
      (.node (.program [.expressionStatement e])) := by
  have hProgram := means_statements (.cons (means_expressionStatement h) .nil)
  rw [List.flatMap_singleton] at hProgram
  exact hProgram

end meanings

end PageScript
