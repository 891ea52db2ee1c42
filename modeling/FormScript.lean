import FormScript.CommandLine
import FormScript.Main
import FormScript.Proofs.Equality
import FormScript.Proofs.Reading.Expression
import FormScript.Proofs.Reading.Field
import FormScript.Proofs.Reading.Block
import FormScript.Proofs.Scanning
import FormScript.Proofs.Places
import FormScript.Proofs.Reading.Program
import FormScript.Proofs.Derivation.Basic
import FormScript.Proofs.Derivation.Sound
import FormScript.Proofs.Derivation.Complete
import FormScript.Proofs.Printing.Token
import FormScript.Proofs.Printing.Tree
import FormScript.Proofs.Printing.RoundTrip
import FormScript.Proofs.Faults
import FormScript.Proofs.Nesting
import FormScript.Proofs.Surroundings
import FormScript.Proofs.Copies
import FormScript.Proofs.Plan
import FormScript.Proofs.Isolation
import FormScript.Proofs.Writing
import FormScript.Proofs.Typing
import FormScript.Proofs.Resolution
import FormScript.Proofs.Spending
import FormScript.Proofs.Ending
import FormScript.Proofs.Unrolling
import FormScript.Proofs.Formless
import FormScript.Proofs.Words
import FormScript.Proofs.WellFormed
import FormScript.Proofs.Limit
import FormScript.Proofs.Patterns
import FormScript.Proofs.Contract
import FormScript.Proofs.Lines
import FormScript.Proofs.Refusal
import FormScript.Proofs.Registration
import FormScript.Proofs.Exactness
import FormScript.Proofs.Inference
import FormScript.Proofs.Numbering
import FormScript.Proofs.Termination
import FormScript.Proofs.LexicalErrors
import FormScript.Proofs.Consumption
import FormScript.Proofs.StartLines
import FormScript.Proofs.Printing.Written
import FormScript.Proofs.SideBySide
import FormScript.Proofs.Repetition
import FormScript.Proofs.Spans
import FormScript.Proofs.Comparison
import FormScript.Proofs.LoopNames
import FormScript.Proofs.Storing
import FormScript.Proofs.Settings
import FormScript.Proofs.Schema
import FormScript.Proofs.Stripping
import FormScript.Proofs.Renumbering
import FormScript.Proofs.Levels
