import PageScript.Command

/-! The program: read the named file, run the command and leave with its exit
code. -/
namespace PageScript

/-- The bytes of a file, if it exists. -/
def readFile (name : String) : IO (Option Bytes) := do
  try
    let bytes ← IO.FS.readBinFile name
    return some bytes.toList
  catch _ => return none

end PageScript

open PageScript in
def main (arguments : List String) : IO UInt32 := do
  let content ← match arguments with
    | [] => pure none
    | name :: _ => readFile name
  match Command.run arguments (fun _ => content) with
  | .ok finished =>
    IO.print finished.output
    IO.eprint finished.errors
    return UInt32.ofNat finished.exit
  | .error fault =>
    IO.eprintln fault.message
    return 1
