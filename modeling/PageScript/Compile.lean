import PageScript.Analysis
import PageScript.Emit
import PageScript.Instruction

/-! Compiling a script: check it, lower it and emit it. A compiler keeps what
earlier scripts have left in it. -/
namespace PageScript

/-- What a compiler has gathered so far. -/
structure Compiler where
  symbols : Analysis.Symbols
  instructions : List Instruction
  lines : List String
  deriving Inhabited

namespace Compiler

def fresh : Compiler := ⟨.empty, [], []⟩

/-- Compile a script. The result is the text of everything emitted so far. A
fault in one stage keeps what this and the earlier stages have added, and the
later stages do not run. -/
def compile (c : Compiler) (root : Node) : Compiler × Except Fault String :=
  let analysed := Analysis.analyse c.symbols root
  let c := { c with symbols := analysed.symbols }
  match analysed.fault with
  | some fault => (c, .error fault)
  | none =>
    let lowered := Instruction.lower root
    let c := { c with instructions := c.instructions ++ lowered.produced }
    match lowered.fault with
    | some fault => (c, .error fault)
    | none =>
      let emitted := Emit.emit root
      let c := { c with lines := c.lines ++ emitted.produced }
      match emitted.fault with
      | some fault => (c, .error fault)
      | none => (c, .ok (Emit.joinLines c.lines))

end Compiler

end PageScript
