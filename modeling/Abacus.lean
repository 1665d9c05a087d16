import Abacus.Digest.Cbor
import Abacus.Digest.Sha256
import Abacus.Editor.Completion
import Abacus.Editor.Position
import Abacus.Editor.Server
import Abacus.Editor.Worker
import Abacus.Emit.Body
import Abacus.Emit.Comment
import Abacus.Emit.File
import Abacus.Emit.Identifier
import Abacus.Emit.Statement
import Abacus.Expr.Basic
import Abacus.Expr.Parse
import Abacus.Files.Path
import Abacus.Files.Tree
import Abacus.Generate
import Abacus.Machine.Chunk
import Abacus.Machine.Fault
import Abacus.Machine.Fingerprint
import Abacus.Machine.Listing
import Abacus.Machine.Opcode
import Abacus.Machine.Run
import Abacus.Main
import Abacus.Number.Binary32
import Abacus.Number.FloatText
import Abacus.Number.Literal
import Abacus.Number.Rounding
import Abacus.Number.Shortest
import Abacus.Operator
import Abacus.Program
import Abacus.Settings.Basic
import Abacus.Settings.Decode
import Abacus.Settings.Load
import Abacus.Shell.Command
import Abacus.Shell.Flags
import Abacus.Shell.History
import Abacus.Shell.Prompt
import Abacus.Shell.Runner
import Abacus.Source.Diagnostic
import Abacus.Source.Line
import Abacus.Source.Span
import Abacus.Text.Blank
import Abacus.Text.Bytes
import Abacus.Text.Letter
import Abacus.Text.Printable
import Abacus.Text.Quoted
import Abacus.Text.Utf8
import Abacus.Token.Kind
import Abacus.Token.Scan
import Abacus.Toml.Document
import Abacus.Toml.Item
import Abacus.Toml.Read
import Abacus.Toml.Scalar
import Abacus.Tree
import Abacus.Tree.Parse
import Abacus.Typing
import Abacus.Value
import Abacus.Proofs.Arena
import Abacus.Proofs.Digest.Items
import Abacus.Proofs.Editor.Delivery
import Abacus.Proofs.Editor.Exchange
import Abacus.Proofs.Editor.Hover
import Abacus.Proofs.Editor.LastWord
import Abacus.Proofs.Editor.Orderly
import Abacus.Proofs.Editor.Positions
import Abacus.Proofs.Editor.Ranges
import Abacus.Proofs.Emit.Constants
import Abacus.Proofs.Emit.FaultAgreement
import Abacus.Proofs.Emit.Meaning
import Abacus.Proofs.Emit.Quoting
import Abacus.Proofs.Emit.Scoping
import Abacus.Proofs.Exactness
import Abacus.Proofs.Failing
import Abacus.Proofs.FrontEnds
import Abacus.Proofs.Generate.Capacity
import Abacus.Proofs.Generate.Code
import Abacus.Proofs.Generate.Correctness
import Abacus.Proofs.Generate.Decompile
import Abacus.Proofs.Generate.Evaluation
import Abacus.Proofs.Generate.Instructions
import Abacus.Proofs.Grammar.Derivation
import Abacus.Proofs.Grammar.Leaves
import Abacus.Proofs.Grammar.Literals
import Abacus.Proofs.Grammar.Nesting
import Abacus.Proofs.Grammar.Parsing
import Abacus.Proofs.Grammar.Printing
import Abacus.Proofs.Grammar.Viable
import Abacus.Proofs.Layout.Blanking
import Abacus.Proofs.Layout.Invariance
import Abacus.Proofs.Layout.Respan
import Abacus.Proofs.Layout.Written
import Abacus.Proofs.Machine.Building
import Abacus.Proofs.Machine.Encoding
import Abacus.Proofs.Machine.Listed
import Abacus.Proofs.Machine.Safety
import Abacus.Proofs.Machine.Slots
import Abacus.Proofs.Machine.Stepping
import Abacus.Proofs.Number.Decimal
import Abacus.Proofs.Number.Nearest
import Abacus.Proofs.Number.Shortest
import Abacus.Proofs.Number.Written
import Abacus.Proofs.Operands
import Abacus.Proofs.Places
import Abacus.Proofs.Prompt.Incomplete
import Abacus.Proofs.Reports
import Abacus.Proofs.Scan.Continued
import Abacus.Proofs.Scan.Lexeme
import Abacus.Proofs.Scan.Longest
import Abacus.Proofs.Scan.Munch
import Abacus.Proofs.Source.Agreement
import Abacus.Proofs.Source.Carets
import Abacus.Proofs.Source.Lines
import Abacus.Proofs.Source.Reported
import Abacus.Proofs.StackUse
import Abacus.Proofs.Text.Glyphs
import Abacus.Proofs.Text.Stops
import Abacus.Proofs.Text.Words
import Abacus.Proofs.Tree.Blocks
import Abacus.Proofs.Tree.Growing
import Abacus.Proofs.Tree.Spans
import Abacus.Proofs.Typing.Rejection
import Abacus.Proofs.Typing.Soundness
import Abacus.Proofs.Typing.Stopping
import Abacus.Proofs.Typing.Sweep
