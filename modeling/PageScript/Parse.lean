import PageScript.Grammar.Automaton
import PageScript.Grammar.Build
import PageScript.Token.Lexer

/-! Parsing a script: the automaton runs over the lexemes of the source,
building phrases as it reduces. When a rule refuses, or a token does not fit
soon after that, the automaton drops what it has read and starts again. -/
namespace PageScript.Parse

/-- A state the automaton has reached, with the phrase that led to it. -/
structure Frame where
  state : Nat
  phrase : Phrase
  deriving Repr, Inhabited

/-- What the automaton looks at: a token, the end of the input, or the mark
that a rule has refused. -/
inductive Lookahead where
  | token (t : Token)
  | finish
  | refused
  deriving Repr, Inhabited

namespace Lookahead

/-- The token kind that the table is consulted with. No state acts on a
refusal. -/
def kind? : Lookahead → Option Terminal
  | token t => some t.kind
  | finish => some .endOfInput
  | refused => none

/-- The phrase a shifted token stands for. -/
def phrase : Lookahead → Phrase
  | token t => .leaf t.value
  | _ => .nothing

end Lookahead

/-- A running parse. The stack has its top first, and its bottom state zero is
not on it. -/
structure Config where
  stack : List Frame
  lookahead : Option Lookahead
  /-- What was looked at when rules refused, or nothing if no token had been
  read. -/
  pushedBack : List (Option Lookahead)
  /-- How many tokens have to be shifted before an unfitting token is
  reported. -/
  quiet : Nat
  input : List Lexer.Lexeme
  output : String
  deriving Repr, Inhabited

/-- How a parse ends. -/
inductive Outcome where
  | accepted (phrase : Phrase)
  /-- The input ended while the automaton was recovering. -/
  | abandoned
  | failed (fault : Fault)
  /-- The bound on the number of steps was reached. -/
  | unfinished
  deriving Inhabited

/-- The end of a parse, with what was printed on the way. -/
structure Parsed where
  outcome : Outcome
  output : String
  deriving Inhabited

/-- One step leads on or ends the parse. -/
inductive Step where
  | next (config : Config)
  | done (parsed : Parsed)

/-- Unfitting tokens are reported again after this many tokens. -/
def quietPeriod : Nat := 3

def Config.start (input : List Lexer.Lexeme) : Config :=
  ⟨[], none, [], 0, input, ""⟩

/-- The state on top of a stack. -/
def topState : List Frame → Nat
  | [] => 0
  | frame :: _ => frame.state

/-- The line of a text with this number, counted from zero. -/
def lineAt (source : List Char) : Nat → List Char
  | 0 => source.takeWhile (· != '\n')
  | n + 1 => lineAt ((source.dropWhile (· != '\n')).drop 1) n

/-- The complaint about a token that does not fit. -/
def unfitting (source : String) : Lookahead → Fault
  | .token t =>
    let text := match t.value.write with
      | .ok s => s
      | .error _ => ""
    .syntactic (.unexpected t.line t.place.column text
      (String.ofList (lineAt source.toList (t.line - 1))))
  | _ => .syntactic .unexpectedEnd

/-- Take the next token, reporting the stray characters before it. -/
def nextToken : List Lexer.Lexeme → String →
    Except Fault Lookahead × List Lexer.Lexeme × String
  | [], output => (.ok .finish, [], output)
  | .token t :: rest, output => (.ok (.token t), rest, output)
  | .stray c line place :: rest, output => nextToken rest (output ++ Lexer.strayNotice c line place)
  | .overlong digits :: rest, output => (.error (.numeral (.unreadable digits)), rest, output)

/-- What to do when the table has no action: complain, or go on dropping what
has been read. -/
def recover (source : String) (c : Config) (la : Lookahead) : Step :=
  if c.quiet = 0 then .done ⟨.failed (unfitting source la), c.output⟩
  else
    let c := { c with quiet := quietPeriod }
    match c.stack, la with
    | _, .finish => .done ⟨.abandoned, c.output⟩
    | [], _ => .next { c with lookahead := none, pushedBack := [] }
    | _ :: rest, .refused => .next { c with stack := rest }
    | _ :: _, .token t =>
      .next { c with lookahead := some .refused, pushedBack := some (.token t) :: c.pushedBack }

/-- Apply a rule to the phrases on top of the stack. A rule that refuses for a
syntactic reason starts the recovery. -/
def reduce (policy : ElementPolicy) (c : Config) (rule : Rule) : Step :=
  let parts := (c.stack.take rule.size).reverse.map Frame.phrase
  let rest := c.stack.drop rule.size
  let built := Build.build policy rule parts
  let output := c.output ++ built.output
  match built.result with
  | .ok phrase =>
    match Automaton.goto? (topState rest) rule.production.phrase with
    | some state => .next { c with stack := ⟨state, phrase⟩ :: rest, output := output }
    | none => .done ⟨.failed .misplacedPhrase, output⟩
  | .error (.syntactic _) =>
    .next { c with
      stack := c.stack.drop 1
      lookahead := some .refused
      pushedBack := c.lookahead :: c.pushedBack
      quiet := quietPeriod
      output := output }
  | .error fault => .done ⟨.failed fault, output⟩

/-- Act on what is looked at. -/
def act (policy : ElementPolicy) (source : String) (c : Config) (la : Lookahead) : Step :=
  match la.kind?.bind (Automaton.action? (topState c.stack)) with
  | some (.shift state) =>
    .next
      { c with stack := ⟨state, la.phrase⟩ :: c.stack, lookahead := none, quiet := c.quiet - 1 }
  | some (.reduce rule) => reduce policy c rule
  | some .accept =>
    match c.stack with
    | frame :: _ => .done ⟨.accepted frame.phrase, c.output⟩
    | [] => .done ⟨.failed .misplacedPhrase, c.output⟩
  | none => recover source c la

/-- One step of the automaton. A state with a single reduction does not look at
the input; otherwise a token is taken back or read if none is at hand. -/
def step (policy : ElementPolicy) (source : String) (c : Config) : Step :=
  match Automaton.default? (topState c.stack) with
  | some rule => reduce policy c rule
  | none =>
    match c.lookahead, c.pushedBack with
    | some la, _ => act policy source c la
    | none, la :: rest =>
      let la := la.getD .finish
      act policy source { c with lookahead := some la, pushedBack := rest } la
    | none, [] =>
      match nextToken c.input c.output with
      | (.ok la, input, output) =>
        act policy source { c with lookahead := some la, input := input, output := output } la
      | (.error fault, _, output) => .done ⟨.failed fault, output⟩

/-- Run for at most so many steps. -/
def run (policy : ElementPolicy) (source : String) : Nat → Config → Parsed
  | 0, c => ⟨.unfinished, c.output⟩
  | steps + 1, c =>
    match step policy source c with
    | .next c => run policy source steps c
    | .done parsed => parsed

/-- More steps than a parse of this input takes. -/
def stepBound (input : List Lexer.Lexeme) : Nat :=
  1000 * (input.length + 10)

/-- Parse the lexemes of a source text, which complaints quote. -/
def parseLexemes (policy : ElementPolicy) (source : String) (input : List Lexer.Lexeme) : Parsed :=
  run policy source (stepBound input) (Config.start input)

/-- Parse a source text. -/
def parse (policy : ElementPolicy) (source : String) : Parsed :=
  parseLexemes policy source (Lexer.lexemes source)

/-- The tree of a parse. An abandoned parse has none, which is not a fault. -/
def Parsed.tree (parsed : Parsed) : Except Fault Node :=
  match parsed.outcome with
  | .accepted (.node n) => .ok n
  | .accepted _ => .error .misplacedPhrase
  | .abandoned => .ok .missing
  | .failed fault => .error fault
  | .unfinished => .error .misplacedPhrase

end PageScript.Parse
