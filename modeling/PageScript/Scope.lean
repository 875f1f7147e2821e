import PageScript.Table

/-! Nested scopes. A chain of tables, innermost first, is what a name is looked
up in; a forest of scopes keeps all scopes at hand by number. -/
namespace PageScript

variable {α : Type}

/-- The value of a name in the innermost table that has it. -/
def findInChain (chain : List (Table α)) (name : String) : Option α :=
  chain.findSome? (·.get? name)

/-- A scope with the number of the scope around it. -/
structure Scope (α : Type) where
  parent : Option Nat
  table : Table α

/-- All scopes, numbered in the order of their making. Scope zero is the
outermost. -/
structure Scopes (α : Type) where
  scopes : List (Scope α)

namespace Scopes

def root : Scopes α := ⟨[⟨none, .empty⟩]⟩

/-- A new scope inside another. Its number comes with it. -/
def child (s : Scopes α) (parent : Nat) : Scopes α × Nat :=
  (⟨s.scopes ++ [⟨some parent, .empty⟩]⟩, s.scopes.length)

/-- Set a name in one scope. -/
def set (s : Scopes α) (scope : Nat) (name : String) (value : α) : Scopes α :=
  ⟨s.scopes.modify scope fun sc => { sc with table := sc.table.set name value }⟩

/-- The tables from a scope outwards. A scope is made after the one around it,
so the numbers fall. -/
def chain (s : Scopes α) (scope : Nat) : List (Table α) :=
  match s.scopes[scope]? with
  | none => []
  | some sc =>
    match sc.parent with
    | none => [sc.table]
    | some parent => if parent < scope then sc.table :: chain s parent else [sc.table]
termination_by scope

def find? (s : Scopes α) (scope : Nat) (name : String) : Option α :=
  findInChain (s.chain scope) name

/-- The innermost value of a name that is not left open. A scope that names it
without a value is passed over. -/
def findDefined? (s : Scopes (Option α)) (scope : Nat) (name : String) : Option α :=
  (s.chain scope).findSome? fun table => (table.get? name).join

end Scopes

end PageScript
