import PageScript.Tree.Node

/-! What the symbols of the grammar stand for once they have been read. -/
namespace PageScript

/-- The meaning of a symbol: a token's value, a node, or one of the parts from
which nodes are built. -/
inductive Phrase where
  | nothing
  | leaf (value : Value)
  | node (n : Node)
  | nodes (ns : List Node)
  | type (t : Ty)
  | types (ts : List Ty)
  | parameters (ps : List Parameter)
  | attributes (table : Table String)
  | settings (table : Table Value)
  | elementBody (attributes : Table String) (content : List Node)
  | functionHead (name : String) (parameters : List Parameter) (result : Option Ty) (async : Bool)
  deriving Repr, Inhabited

namespace Phrase

/-- A token's value; nothing at all is the value that stands for nothing. -/
def leaf? : Phrase → Option Value
  | leaf value => some value
  | nothing => some .none
  | _ => none

def word? : Phrase → Option String
  | leaf (.text s) => some s
  | _ => none

/-- A node; nothing at all is the missing node. -/
def node? : Phrase → Option Node
  | node n => some n
  | nothing => some .missing
  | _ => none

def nodes? : Phrase → Option (List Node)
  | nodes ns => some ns
  | nothing => some []
  | _ => none

def type? : Phrase → Option (Option Ty)
  | type t => some (some t)
  | nothing => some none
  | _ => none

def types? : Phrase → Option (List Ty)
  | types ts => some ts
  | nodes [] => some []
  | _ => none

def parameters? : Phrase → Option (List Parameter)
  | parameters ps => some ps
  | nodes [] => some []
  | nothing => some []
  | _ => none

def parameter? : Phrase → Option Parameter
  | node (.parameter p) => some p
  | _ => none

def attributes? : Phrase → Option (Table String)
  | attributes table => some table
  | nothing => some .empty
  | _ => none

def settings? : Phrase → Option (Table Value)
  | settings table => some table
  | nothing => some .empty
  | _ => none

/-- The block made of a block body: a list of statements, or one bare node. -/
def block? : Phrase → Option Node
  | nodes ns => some (.block ns)
  | node n => some (.bareBlock n)
  | nothing => some (.bareBlock .missing)
  | _ => none

/-- The name in a closing tag, if it has one that is not empty. -/
def closingName : Phrase → Option String
  | leaf (.text s) => if s = "" then none else some s
  | _ => none

end Phrase

end PageScript
