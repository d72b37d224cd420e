import StackCode.Assembler
import StackCode.CodeUnit
import StackCode.CommandLine
import StackCode.Double.Basic
import StackCode.Double.Decimal
import StackCode.Error
import StackCode.Fold
import StackCode.Gen.Access
import StackCode.Gen.Basic
import StackCode.Gen.Expression
import StackCode.Gen.Literal
import StackCode.Gen.Statement
import StackCode.Generator
import StackCode.Instruction
import StackCode.Json.Basic
import StackCode.Json.Decoder
import StackCode.Json.Reader
import StackCode.Json.Record
import StackCode.Json.Scan
import StackCode.Json.Scan.Length
import StackCode.Json.Skip
import StackCode.Json.Typed
import StackCode.Listing
import StackCode.Literal
import StackCode.LoopStack
import StackCode.Main
import StackCode.Proofs.Draft
import StackCode.Scope
import StackCode.Text.Ansi
import StackCode.Text.ExtendingMark
import StackCode.Text.Hex
import StackCode.Text.Quoted
import StackCode.Text.Unprintable
import StackCode.Tree.Basic
import StackCode.Tree.Decoder
import StackCode.Tree.Reader
import StackCode.Tree.Size
import StackCode.Tree.Symbol
import StackCode.Proofs.Backpatching
import StackCode.Proofs.Tree.Map
import StackCode.Proofs.Unseen
import StackCode.Proofs.DeepFold
import StackCode.Proofs.Layout.Basic
import StackCode.Proofs.Layout.Tree
import StackCode.Proofs.Layout.Compiles
import StackCode.Proofs.Layout.Control
import StackCode.Proofs.Layout.Correct
import StackCode.Proofs.Stack.Shape
import StackCode.Proofs.Stack.Shaped
import StackCode.Proofs.Layout.Units
import StackCode.Proofs.Stack.Discipline
import StackCode.Proofs.Layout.Supported
import StackCode.Proofs.Machine.Basic
import StackCode.Proofs.Machine.Meaning
import StackCode.Proofs.Machine.Reach
import StackCode.Proofs.Double.Exact
import StackCode.Proofs.Machine.Expression
import StackCode.Proofs.Machine.Statement
import StackCode.Proofs.Machine.Correct
import StackCode.Proofs.Acceptance
import StackCode.Proofs.Tree.Nodes
import StackCode.Proofs.Log.Basic
import StackCode.Proofs.Log.Units
import StackCode.Proofs.WellFormed.Basic
import StackCode.Proofs.Steps
import StackCode.Proofs.WellFormed.Tree
import StackCode.Proofs.WellFormed.Units
import StackCode.Proofs.NoInternalError
import StackCode.Proofs.Declarations
import StackCode.Proofs.Frame
import StackCode.Proofs.Text.Digits
import StackCode.Proofs.Literal
import StackCode.Proofs.Json.Spelling
import StackCode.Proofs.Json.Scan
import StackCode.Proofs.Json.Reads
import StackCode.Proofs.Json.Fields
import StackCode.Proofs.Tree.Form
import StackCode.Proofs.Tree.RoundTrip
import StackCode.Proofs.Fold
import StackCode.Proofs.Renaming
import StackCode.Proofs.Double.Nearest
import StackCode.Proofs.Fold.Range
import StackCode.Proofs.Atoms
import StackCode.Proofs.Atoms.Units
import StackCode.Proofs.Toplevel
import StackCode.Proofs.NumberLiteral
import StackCode.Proofs.DistinctLiterals
import StackCode.Proofs.Text.Utf16
import StackCode.Proofs.Literal.CodeUnits
import StackCode.Proofs.Text.Ansi
import StackCode.Proofs.Text.Quoted
import StackCode.Proofs.Listing.Display
import StackCode.Proofs.Listing.Colors
import StackCode.Proofs.Listing.Faithful
import StackCode.Proofs.Layout.Emitted
import StackCode.Proofs.Machine.Memory
import StackCode.Proofs.Machine.Doubles
import StackCode.Proofs.Machine.Increment
import StackCode.Proofs.Slots
import StackCode.Proofs.Json.Depth
import StackCode.Proofs.Tree.Depth
import StackCode.Proofs.Tree.Nesting
import StackCode.Proofs.Recursion
import StackCode.Proofs.Recursion.Nested
