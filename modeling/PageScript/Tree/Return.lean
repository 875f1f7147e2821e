import PageScript.Fault
import PageScript.Tree.Node

/-! Looking for a return statement in the body of a function. The search goes
into the branches of conditionals and the bodies of loops, and reports on the
console what it looks at. -/
namespace PageScript

/-- What a search has printed, and what it found. -/
structure Search where
  output : String
  found : Except Fault Bool

namespace Search

def line (text : String) : String := text ++ "\n"

def fail (fault : Fault) : Search := ⟨"", .error fault⟩

/-- Go on with `next` unless something was found or went wrong. -/
def orElse (first : Search) (next : Unit → Search) : Search :=
  match first.found with
  | .ok false => let s := next (); ⟨first.output ++ s.output, s.found⟩
  | _ => first

/-- Print a line before the search. -/
def after (text : String) (s : Search) : Search := ⟨line text ++ s.output, s.found⟩

end Search

namespace Node

mutual

/-- Search one statement. Statements of other kinds hold no return
statement. -/
def searchReturn : Node → Search
  | returnStatement _ => ⟨Search.line "Found a return statement.", .ok true⟩
  | ifStatement _ thenBlock elseBlock =>
    Search.after "Checking if statement branches for return statements."
      ((searchBranch thenBlock).orElse fun _ => searchBranch elseBlock)
  | whileStatement _ body =>
    Search.after "Checking loop body for return statements." (searchBlock body)
  | forStatement _ _ body =>
    Search.after "Checking loop body for return statements." (searchBlock body)
  | _ => ⟨"", .ok false⟩

/-- Search the statements of a branch, which may be missing. -/
def searchBranch : Node → Search
  | missing => ⟨"", .ok false⟩
  | block statements => searchReturns statements
  | program statements => searchReturns statements
  | bareBlock item => .fail (.shape (.notIterable item.kindName))
  | n => .fail (.shape (.noField n.kindName "statements"))

/-- Search the statements of a block. -/
def searchBlock : Node → Search
  | block statements => searchReturns statements
  | program statements => searchReturns statements
  | bareBlock item => .fail (.shape (.notIterable item.kindName))
  | n => .fail (.shape (.noField n.kindName "statements"))

/-- Search statements in order, up to the first that returns. -/
def searchReturns : List Node → Search
  | [] => ⟨Search.line "Did not find a return statement. Function syntax not valid.", .ok false⟩
  | s :: rest =>
    (Search.after ("Checking statement: " ++ s.display) (searchReturn s)).orElse fun _ =>
      searchReturns rest

end

end Node

end PageScript
