import PageScript.Analysis
import PageScript.Command
import PageScript.Compile
import PageScript.Emit
import PageScript.Fold
import PageScript.Grammar.Automaton
import PageScript.Grammar.Build
import PageScript.Instruction
import PageScript.Main
import PageScript.Markup.Html
import PageScript.Parse
import PageScript.Proofs.Analysis.Names
import PageScript.Proofs.Analysis.Preservation
import PageScript.Proofs.Fold.Meaning
import PageScript.Proofs.Markup.Grammar
import PageScript.Proofs.Instruction.Lowering
import PageScript.Proofs.Parse.Refusal
import PageScript.Proofs.Run.Loops
import PageScript.Proofs.Sequencing
import PageScript.Run.Machine
import PageScript.Scope
import PageScript.Tree.Record
import PageScript.Tree.Return
import PageScript.Tree.Serialise
import PageScript.Ty.Compatible
import PageScript.Proofs.Markup.Reading
import PageScript.Proofs.Markup.Acceptance
import PageScript.Proofs.Markup.Lexing
import PageScript.Proofs.Markup.RoundTrip
import PageScript.Proofs.Markup.Injection
import PageScript.Proofs.Text.Span
import PageScript.Proofs.Run.HandOver
import PageScript.Proofs.Run.Content
import PageScript.Proofs.Emit.Faults
import PageScript.Proofs.Emit.Outline
import PageScript.Proofs.Instruction.Decoding
import PageScript.Proofs.Markup.Flow
import PageScript.Proofs.Token.Laid
import PageScript.Proofs.Parse.WellFormed
import PageScript.Proofs.Emit.ReadBack
import PageScript.Proofs.Grammar.Means
import PageScript.Proofs.Token.Lossless
import PageScript.Proofs.Analysis.Locality
import PageScript.Proofs.Compile
import PageScript.Proofs.Tree.Record
import PageScript.Proofs.Automaton.Elements
import PageScript.Proofs.Parse.Elements
import PageScript.Proofs.Markup.Lossless
import PageScript.Proofs.Token.Literal
import PageScript.Proofs.Fold.Operators
import PageScript.Proofs.Run.Agreement
import PageScript.Proofs.Run.Iterations
import PageScript.Proofs.Parse.Recovery
import PageScript.Proofs.Analysis.Clauses
import PageScript.Proofs.Analysis.Declarations
import PageScript.Proofs.Analysis.LoopVariables
import PageScript.Proofs.Fold.NormalForm
import PageScript.Proofs.Fold.Typing
import PageScript.Proofs.Analysis.Compatibility
import PageScript.Proofs.Parse.Cryptography
import PageScript.Proofs.Tree.Recorded
import PageScript.Proofs.Tree.Return
import PageScript.Proofs.Parse.KeyGeneration
import PageScript.Proofs.Number.Written
import PageScript.Proofs.Emit.Regrouping
import PageScript.Proofs.Markup.Placeholders
import PageScript.Proofs.Markup.Definitions
import PageScript.Proofs.Markup.Truncation
import PageScript.Proofs.Token.Layout
import PageScript.Proofs.Parse.Outcome
import PageScript.Proofs.Run.Confinement
import PageScript.Proofs.Parse.Complaints
import PageScript.Proofs.Markup.Bounds
