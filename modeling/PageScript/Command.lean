import PageScript.Parse
import PageScript.Run.Machine

/-! The command line: run the script in the file that the first argument
names. -/
namespace PageScript.Command

/-- What a command leaves: its exit code and the console. -/
structure Finished where
  exit : Nat
  output : String
  errors : String
  deriving Repr, DecidableEq, Inhabited

/-- Run a script. Only elements make use of the error channel. A script that is
still looping after its rounds leaves what it has printed. -/
def runSource (source : String) : Finished :=
  let parsed := Parse.parse .refuse source
  match parsed.tree with
  | .error fault => ⟨1, parsed.output ++ "Parse error: " ++ fault.message ++ "\n", ""⟩
  | .ok root =>
    let (m, status) := Run.interpret Run.defaultRounds root .fresh
    match status with
    | .failed fault =>
      ⟨1, parsed.output ++ m.output ++ "Runtime error: " ++ fault.message ++ "\n", m.errors⟩
    | .done => ⟨0, parsed.output ++ m.output, m.errors⟩
    | .running => ⟨1, parsed.output ++ m.output, m.errors⟩

/-- Run the command with these arguments, where `read` gives the bytes of a
file that exists. Bytes that are no text leave the command without an exit
code. -/
def run (arguments : List String) (read : String → Option Bytes) : Except Utf8.Fault Finished :=
  match arguments with
  | [] => .ok ⟨1, "Usage: opalg <file.op>\n", ""⟩
  | name :: _ =>
    match read name with
    | none => .ok ⟨1, s!"Error: File '{name}' not found.\n", ""⟩
    | some bytes => do
      let text ← Utf8.decode bytes
      return runSource (String.ofList (unifyLineEnds text.toList))

end PageScript.Command
