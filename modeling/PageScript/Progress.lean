import PageScript.Fault

/-! Output that is produced piece by piece until something goes wrong. What has
been produced before a fault stays. -/
namespace PageScript

/-- What was produced, and the fault that ended it. -/
structure Progress (α : Type) where
  produced : List α
  fault : Option Fault
  deriving Inhabited

namespace Progress

variable {α : Type}

def nothing : Progress α := ⟨[], none⟩

def one (x : α) : Progress α := ⟨[x], none⟩

def failed (fault : Fault) : Progress α := ⟨[], some fault⟩

/-- Go on producing unless there was a fault. -/
def andThen (first : Progress α) (next : Unit → Progress α) : Progress α :=
  match first.fault with
  | none => let later := next (); ⟨first.produced ++ later.produced, later.fault⟩
  | some _ => first

/-- Go on with a result, if there is one. -/
def withResult {β : Type} (result : Except Fault β) (next : β → Progress α) : Progress α :=
  match result with
  | .ok b => next b
  | .error fault => failed fault

end Progress

end PageScript
