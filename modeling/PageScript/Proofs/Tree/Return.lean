import PageScript.Proofs.Parse.WellFormed
import PageScript.Proofs.Parse.Provenance

/-! What the search for a return statement finds. The blocks of a conditional,
a loop, an attempt and a transaction belong to the function that they stand in;
the search goes into those of conditionals and loops only. Main statement: a
search finds a return statement exactly if one is reached through conditionals
and loops, so what it misses stands in an attempt or a transaction. -/
namespace PageScript

namespace Node

/-- The statements of a block. -/
def statementsOf : Node → List Node
  | block statements | program statements => statements
  | _ => []

/-- The blocks of a statement that belong to the function it stands in. -/
def ownBlocks : Node → List Node
  | ifStatement _ thenBlock elseBlock => [thenBlock, elseBlock]
  | whileStatement _ body | forStatement _ _ body | transaction _ body _ => [body]
  | tryStatement tried _ handler last => [tried, handler, last]
  | _ => []

/-- Attempts and transactions. -/
def isGuarded : Node → Bool
  | tryStatement .. | transaction .. => true
  | _ => false

/-- The blocks that the search goes into. -/
def searchedBlocks (n : Node) : List Node := if n.isGuarded then [] else n.ownBlocks

/-- `inner` is the statement itself, or stands in one of its blocks at any
depth. -/
inductive Reached (blocks : Node → List Node) (inner : Node) : Node → Prop where
  | here : Reached blocks inner inner
  | inside {outer b s : Node} (block : b ∈ blocks outer) (statement : s ∈ b.statementsOf)
      (deeper : Reached blocks inner s) : Reached blocks inner outer

/-- A return statement is reached. -/
def Returns (blocks : Node → List Node) (n : Node) : Prop :=
  ∃ value, Reached blocks (.returnStatement value) n

/-- A block that statements are read from. -/
def IsBlock (n : Node) : Prop := ∃ statements, n = block statements ∨ n = program statements

/-- Branches and bodies are blocks, and only a branch may be missing. -/
def HasBlocks : Node → Prop
  | ifStatement _ thenBlock elseBlock =>
    (thenBlock = missing ∨ thenBlock.IsBlock) ∧ (elseBlock = missing ∨ elseBlock.IsBlock)
  | whileStatement _ body | forStatement _ _ body => body.IsBlock
  | _ => True

/-- The search can read every block it comes to. -/
def Searchable (n : Node) : Prop := ∀ inner, Reached searchedBlocks inner n → inner.HasBlocks

/-! ### What is reached -/

theorem Reached.mono {some all : Node → List Node} (hSome : ∀ n, some n ⊆ all n)
    {inner outer : Node} (h : Reached some inner outer) : Reached all inner outer := by
  induction h with
  | here => exact .here
  | inside block statement _ ih => exact .inside (hSome _ block) statement ih

/-- The search goes into blocks that belong to the function only. -/
theorem searchedBlocks_subset (n : Node) : n.searchedBlocks ⊆ n.ownBlocks := by
  unfold searchedBlocks
  split
  · exact List.nil_subset _
  · exact List.Subset.refl _

/-- The way to a statement either avoids attempts and transactions, or has a
first one. -/
theorem Reached.searched_or_guarded {inner outer : Node} (h : Reached ownBlocks inner outer) :
    Reached searchedBlocks inner outer ∨
      ∃ guard, guard.isGuarded = true ∧ Reached searchedBlocks guard outer ∧
        Reached ownBlocks inner guard := by
  induction h with
  | here => exact .inl .here
  | @inside outer b s block statement deeper ih =>
      by_cases hGuarded : outer.isGuarded = true
      · exact .inr ⟨outer, hGuarded, .here, .inside block statement deeper⟩
      · have hSearched : b ∈ outer.searchedBlocks := by rwa [searchedBlocks, if_neg hGuarded]
        rcases ih with hPlain | ⟨guard, hGuard, hBefore, hAfter⟩
        · exact .inl (.inside hSearched statement hPlain)
        · exact .inr ⟨guard, hGuard, .inside hSearched statement hBefore, hAfter⟩

/-- A statement that is no return statement returns through its blocks. -/
theorem returns_iff {blocks : Node → List Node} {n : Node}
    (h : ∀ value, n ≠ .returnStatement value) :
    n.Returns blocks ↔ ∃ b ∈ blocks n, ∃ s ∈ b.statementsOf, s.Returns blocks := by
  constructor
  · rintro ⟨value, hReached⟩
    cases hReached with
    | here => exact absurd rfl (h value)
    | inside block statement deeper => exact ⟨_, block, _, statement, value, deeper⟩
  · rintro ⟨b, hBlock, s, hStatement, value, hReached⟩
    exact ⟨value, .inside hBlock hStatement hReached⟩

/-- What stands in a block that the search goes into can be searched, too. -/
theorem Searchable.inside {n b s : Node} (h : n.Searchable) (hBlock : b ∈ n.searchedBlocks)
    (hStatement : s ∈ b.statementsOf) : s.Searchable :=
  fun inner hReached => h inner (.inside hBlock hStatement hReached)

end Node

/-! ### What is found -/

/-- A search goes through, and finds something exactly if `found` holds. -/
def Search.Decides (search : Search) (found : Prop) : Prop :=
  ∃ answer, search.found = .ok answer ∧ (answer = true ↔ found)

namespace Search

theorem Decides.congr {search : Search} {p q : Prop} (h : search.Decides p) (hSame : p ↔ q) :
    search.Decides q := by
  obtain ⟨answer, hFound, hAnswer⟩ := h
  exact ⟨answer, hFound, hAnswer.trans hSame⟩

/-- What a search prints before it begins does not matter for what it
decides. -/
theorem Decides.after {search : Search} {p : Prop} (text : String) (h : search.Decides p) :
    (search.after text).Decides p := h

/-- A search that goes on with another where it finds nothing decides whether
either of them finds something. -/
theorem Decides.orElse {first second : Search} {p q : Prop} (hFirst : first.Decides p)
    (hSecond : second.Decides q) :
    (first.orElse fun _ => second).Decides (p ∨ q) := by
  obtain ⟨answer, hFound, hAnswer⟩ := hFirst
  obtain ⟨other, hOther, hMeaning⟩ := hSecond
  cases answer with
  | true => exact ⟨true, by simp [Search.orElse, hFound], by simpa using .inl (hAnswer.mp rfl)⟩
  | false =>
      refine ⟨other, by simp [Search.orElse, hFound, hOther], ?_⟩
      have hNot : ¬p := fun hp => by cases hAnswer.mpr hp
      simp [hMeaning, hNot]

end Search

namespace Node

mutual

/-- The search in a statement goes through, and finds something exactly if a
return statement is reached from it. The recursion is that of the search, which
goes into the branches of conditionals and the bodies of loops. -/
theorem searchReturn_decides (n : Node) (h : n.Searchable) :
    (searchReturn n).Decides (n.Returns searchedBlocks) := by
  cases n with
  | returnStatement value => exact ⟨true, rfl, by simpa using ⟨value, .here⟩⟩
  | ifStatement condition thenBlock elseBlock =>
      obtain ⟨hThen, hElse⟩ : (thenBlock = missing ∨ thenBlock.IsBlock) ∧
          (elseBlock = missing ∨ elseBlock.IsBlock) :=
        h _ .here
      have hFirst := searchBranch_decides thenBlock hThen fun s => h.inside (.head _)
      have hSecond := searchBranch_decides elseBlock hElse fun s => h.inside (.tail _ (.head _))
      refine ((hFirst.orElse hSecond).after _).congr ?_
      rw [returns_iff (by simp)]
      simp [searchedBlocks, isGuarded, ownBlocks]
  | whileStatement condition body =>
      have hBody := searchBlock_decides body (h _ .here) fun s => h.inside (.head _)
      refine (hBody.after _).congr ?_
      rw [returns_iff (by simp)]
      simp [searchedBlocks, isGuarded, ownBlocks]
  | forStatement iterator iterable body =>
      have hBody := searchBlock_decides body (h _ .here) fun s => h.inside (.head _)
      refine (hBody.after _).congr ?_
      rw [returns_iff (by simp)]
      simp [searchedBlocks, isGuarded, ownBlocks]
  | _ =>
      refine ⟨false, rfl, ?_⟩
      rw [returns_iff (by simp)]
      simp [searchedBlocks, isGuarded, ownBlocks]

/-- The search in a branch goes through. Where the branch is missing nothing is
found. -/
theorem searchBranch_decides (n : Node) (hBlock : n = missing ∨ n.IsBlock)
    (h : ∀ s ∈ n.statementsOf, s.Searchable) :
    (searchBranch n).Decides (∃ s ∈ n.statementsOf, s.Returns searchedBlocks) := by
  cases n with
  | missing => exact ⟨false, rfl, by simp [statementsOf]⟩
  | block statements => exact searchReturns_decides statements h
  | program statements => exact searchReturns_decides statements h
  | _ => simp [IsBlock] at hBlock

/-- The search in a block goes through, and finds something exactly if a return
statement is reached from one of its statements. -/
theorem searchBlock_decides (n : Node) (hBlock : n.IsBlock)
    (h : ∀ s ∈ n.statementsOf, s.Searchable) :
    (searchBlock n).Decides (∃ s ∈ n.statementsOf, s.Returns searchedBlocks) := by
  cases n with
  | block statements => exact searchReturns_decides statements h
  | program statements => exact searchReturns_decides statements h
  | _ => simp [IsBlock] at hBlock

/-- The search in statements goes through, and finds something exactly if a
return statement is reached from one of them. -/
theorem searchReturns_decides (statements : List Node) (h : ∀ s ∈ statements, s.Searchable) :
    (searchReturns statements).Decides (∃ s ∈ statements, s.Returns searchedBlocks) := by
  cases statements with
  | nil => exact ⟨false, rfl, by simp⟩
  | cons s rest =>
      obtain ⟨hFirst, hRest⟩ := List.forall_mem_cons.mp h
      have hHere := (searchReturn_decides s hFirst).after ("Checking statement: " ++ s.display)
      have hLater := searchReturns_decides rest hRest
      exact (hHere.orElse hLater).congr (by simp)

end

/-! ### Parsed statements -/

theorem ownBlocks_subset_children (n : Node) : n.ownBlocks ⊆ n.children := by
  cases n <;> simp [ownBlocks, children]

theorem statementsOf_subset_children (n : Node) : n.statementsOf ⊆ n.children := by
  cases n <;> simp [statementsOf, children]

/-- What is reached through blocks occurs in the tree. -/
theorem Reached.occurs {inner outer : Node} (h : Reached ownBlocks inner outer) :
    inner.Occurs outer := by
  induction h with
  | here => exact .here
  | inside block statement _ ih =>
      exact .inside (ownBlocks_subset_children _ block)
        (.inside (statementsOf_subset_children _ statement) ih)

theorem hasBlocks_of_isPart {n : Node} (h : IsPart n) : n.HasBlocks := by
  cases h with
  | missing | block | program => trivial
  | expression formed => cases formed <;> trivial
  | operation formed => cases formed <;> trivial
  | statement formed => cases formed <;> simp [HasBlocks, IsBlock]

theorem searchable_of_isPart {n : Node} (h : IsPart n) : n.Searchable :=
  fun _ hReached => hasBlocks_of_isPart (.of_occurs (hReached.mono searchedBlocks_subset).occurs h)

/-- Where statements are searchable, the search goes through and finds a return
statement exactly if one is reached through conditionals and loops. What it
finds belongs to the function, and what it misses stands in an attempt or a
transaction. -/
theorem searchReturns_finds (statements : List Node)
    (hSearchable : ∀ s ∈ statements, s.Searchable) :
    ∃ answer, (searchReturns statements).found = .ok answer ∧
      (answer = true ↔ ∃ s ∈ statements, s.Returns searchedBlocks) ∧
      (answer = true → ∃ s ∈ statements, s.Returns ownBlocks) ∧
      ((∃ s ∈ statements, s.Returns ownBlocks) → answer = true ∨
        ∃ s ∈ statements, ∃ guard, guard.isGuarded = true ∧
          Reached searchedBlocks guard s ∧ guard.Returns ownBlocks) := by
  obtain ⟨answer, hFound, hAnswer⟩ := searchReturns_decides statements hSearchable
  refine ⟨answer, hFound, hAnswer, ?_, ?_⟩
  · intro hTrue
    obtain ⟨s, hs, value, hReached⟩ := hAnswer.mp hTrue
    exact ⟨s, hs, value, hReached.mono searchedBlocks_subset⟩
  · rintro ⟨s, hs, value, hReached⟩
    rcases hReached.searched_or_guarded with hPlain | ⟨guard, hGuard, hBefore, hAfter⟩
    · exact .inl (hAnswer.mpr ⟨s, hs, value, hPlain⟩)
    · exact .inr ⟨s, hs, guard, hGuard, hBefore, value, hAfter⟩

end Node

namespace Parse

open Node

/-- The statements of a parsed program are searchable. -/
theorem searchable_of_tree {source : String} {ns : List Node}
    (h : (parse .refuse source).tree = .ok (.program ns)) :
    ∀ s ∈ ns, s.Searchable :=
  fun _ hs => searchable_of_isPart (isPart_of_occurs h (.inside hs .here))

/-- A return statement in a loop in a branch. -/
def nestedReturn : String := "if (a) \\\\ while (b) \\\\ return 1\\\\ \\\\ \\\\"

/-- The search goes through a branch and a loop and finds the return statement
there. -/
theorem searchReturns_finds_nestedReturn :
    ∃ ns, (parse .refuse nestedReturn).tree = .ok (.program ns) ∧
    (∀ s ∈ ns, s.Searchable) ∧ (searchReturns ns).found = .ok true ∧ ∃ s ∈ ns,
      s.Returns searchedBlocks := by
  have hReturned : (returned? (parse .refuse nestedReturn).tree).any
      (fun ns => (searchReturns ns).found.toOption == some true) = true := by decide +kernel
  obtain ⟨ns, hSome, hTrue⟩ := (Option.any_eq_true _ _).mp hReturned
  have hTree := eq_of_returned? hSome
  have hSearchable := searchable_of_tree hTree
  obtain ⟨answer, hFound, hAnswer, -⟩ := searchReturns_finds ns hSearchable
  rw [hFound] at hTrue
  cases Option.some.inj (eq_of_beq hTrue)
  exact ⟨ns, hTree, hSearchable, hFound, hAnswer.mp rfl⟩

/-- A return statement in an attempt belongs to the function and is not
found. -/
theorem searchReturns_attempt :
    (searchReturns [.tryStatement (.block [.returnStatement (.number (.int 1))]) .missing .missing
      .missing]).found = .ok false ∧
      (Node.tryStatement (.block [.returnStatement (.number (.int 1))]) .missing .missing
        .missing).Returns ownBlocks :=
  ⟨rfl, .number (.int 1), .inside (.head _) (.head _) .here⟩

end Parse

end PageScript
