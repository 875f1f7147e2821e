/-! Tables that remember the order in which their names were first set. Setting
a name again keeps its place. -/
namespace PageScript

/-- Names with their values, in the order of first setting. -/
structure Table (α : Type) where
  entries : List (String × α)
  deriving Repr, DecidableEq

namespace Table

variable {α : Type}

def empty : Table α := ⟨[]⟩

instance : Inhabited (Table α) := ⟨empty⟩

/-- The value of the first entry of that name. -/
def get? (t : Table α) (name : String) : Option α :=
  t.entries.lookup name

def contains (t : Table α) (name : String) : Bool :=
  (t.get? name).isSome

/-- Overwrite the entry of that name where it stands, or add one at the end. -/
def setEntry (name : String) (value : α) : List (String × α) → List (String × α)
  | [] => [(name, value)]
  | (n, v) :: rest => if n = name then (n, value) :: rest else (n, v) :: setEntry name value rest

def set (t : Table α) (name : String) (value : α) : Table α :=
  ⟨setEntry name value t.entries⟩

def ofEntries (entries : List (String × α)) : Table α :=
  entries.foldl (fun t e => t.set e.1 e.2) empty

/-- Set every entry of `other`, in its order. -/
def update (t other : Table α) : Table α :=
  other.entries.foldl (fun t e => t.set e.1 e.2) t

def names (t : Table α) : List String :=
  t.entries.map Prod.fst

def isEmpty (t : Table α) : Bool :=
  t.entries.isEmpty

end Table

end PageScript
