import PageScript.Markup.Walk
import PageScript.Run.HandOver

/-! Running scripts. A machine holds the frames of the blocks being run, the
functions declared so far and the console. -/
namespace PageScript.Run

/-- The state of a running script. The innermost frame comes first, the global
one last. -/
structure Machine where
  frames : List Frame
  functions : Table Node
  output : String
  errors : String
  deriving Inhabited

/-- How a statement ends: normally, with a fault, or not within the allowed
number of rounds. -/
inductive Status where
  | done
  | failed (fault : Fault)
  | running
  deriving Inhabited

namespace Machine

/-- A machine with an empty global frame. -/
def fresh : Machine := ⟨[.empty], .empty, "", ""⟩

/-- Set a variable in the innermost frame. -/
def assign (m : Machine) (name : String) (value : Value) : Machine :=
  match m.frames with
  | [] => { m with frames := [Table.empty.set name value] }
  | frame :: outer => { m with frames := frame.set name value :: outer }

def print (m : Machine) (text : String) : Machine :=
  { m with output := m.output ++ text }

/-- Run something inside a new frame, which is dropped afterwards. -/
def inside (m : Machine) (body : Machine → Machine × Status) : Machine × Status :=
  let (after, status) := body { m with frames := .empty :: m.frames }
  ({ after with frames := after.frames.drop 1 }, status)

/-- Hand markup source to a new markup interpreter. -/
def interpretMarkup (m : Machine) (source : String) : Machine :=
  let result := Markup.interpret (Utf8.encode source) []
  { m with
    output := m.output ++ Utf8.display result.output
    errors := m.errors ++ Utf8.display result.errors }

end Machine

/-- Repeat a body while a condition holds, for at most so many rounds. -/
def repeatWhile (condition : Machine → Except Fault Value)
    (body : Machine → Machine × Status) :
    Nat → Machine → Machine × Status
  | rounds, m =>
    match condition m with
    | .error fault => (m, .failed fault)
    | .ok value =>
      if !value.truthy then (m, .done)
      else match rounds with
        | 0 => (m, .running)
        | rounds + 1 =>
          match body m with
          | (after, .done) => repeatWhile condition body rounds after
          | stopped => stopped

/-- Run a body once for every item, with the item bound to a name of the
innermost frame. -/
def forEach (name : String) (body : Machine → Machine × Status) :
    List Value → Machine → Machine × Status
  | [], m => (m, .done)
  | item :: rest, m =>
    match body (m.assign name item) with
    | (after, .done) => forEach name body rest after
    | stopped => stopped

mutual

/-- Run one statement. A loop may take at most `rounds` rounds. -/
def execute (rounds : Nat) : Node → Machine → Machine × Status
  | .declaration name _ value _, m =>
    match evaluate m.frames value with
    | .ok v => (m.assign name v, .done)
    | .error fault => (m, .failed fault)
  | .functionDeclaration name parameters result body async, m =>
    ({ m with
        functions :=
          m.functions.set name (.functionDeclaration name parameters result body async) }, .done)
  | .returnStatement .missing, m => (m, .failed (.unavailable .returnOutsideCall))
  | .returnStatement value, m =>
    match evaluate m.frames value with
    | .ok _ => (m, .failed (.unavailable .returnOutsideCall))
    | .error fault => (m, .failed fault)
  | .showStatement value, m =>
    match evaluate m.frames value >>= writeValue with
    | .ok text => (m.print (text ++ "\n"), .done)
    | .error fault => (m, .failed fault)
  | .ifStatement condition thenBlock elseBlock, m =>
    match evaluate m.frames condition with
    | .error fault => (m, .failed fault)
    | .ok value =>
      if value.truthy then m.inside fun m => executeBlock rounds thenBlock m
      else match elseBlock with
        | .missing => (m, .done)
        | elseBlock => m.inside fun m => executeBlock rounds elseBlock m
  | .whileStatement condition body, m =>
    repeatWhile (fun m => evaluate m.frames condition)
      (fun m => m.inside fun m => executeBlock rounds body m) rounds m
  | .forStatement iterator iterable body, m =>
    match evaluate m.frames iterable with
    | .error fault => (m, .failed fault)
    | .ok value =>
      match value.items? with
      | none => (m, .failed (.shape (.notIterable value.kindName)))
      | some items =>
        forEach iterator (fun m => m.inside fun m => executeBlock rounds body m) items m
  | .expressionStatement expression, m =>
    match evaluate m.frames expression with
    | .ok _ => (m, .done)
    | .error fault => (m, .failed fault)
  | .element tag attributes content, m =>
    match elementSource m.frames tag attributes content with
    | .ok source => (m.interpretMarkup source, .done)
    | .error fault => (m, .failed fault)
  | n, m => (m, .failed (.unsupported .execute n.kindName))

/-- Run the statements of a block. -/
def executeBlock (rounds : Nat) : Node → Machine → Machine × Status
  | .block statements, m => executeAll rounds statements m
  | .program statements, m => executeAll rounds statements m
  | .bareBlock item, m => (m, .failed (.shape (.notIterable item.kindName)))
  | n, m => (m, .failed (.shape (.noField n.kindName "statements")))

/-- Run statements in order, up to the first that does not end normally. -/
def executeAll (rounds : Nat) : List Node → Machine → Machine × Status
  | [], m => (m, .done)
  | statement :: rest, m =>
    match execute rounds statement m with
    | (after, .done) => executeAll rounds rest after
    | stopped => stopped

end

/-- Run a whole program. -/
def interpret (rounds : Nat) : Node → Machine → Machine × Status
  | .program statements, m => executeAll rounds statements m
  | _, m => (m, .failed .notProgram)

/-- How many rounds a loop is given. Frames outside a loop's body do not change
while it runs, so a loop that survives its first round never ends. -/
def defaultRounds : Nat := 1000

end PageScript.Run
