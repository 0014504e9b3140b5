import Feedforward.Text.Basic
import Feedforward.Text.Quoted
import Feedforward.Token.Basic
import Feedforward.Token.Failure
import Feedforward.Token.Scan
import Feedforward.Token.Stream
import Feedforward.Target.Basic
import Feedforward.Target.Reserved
import Feedforward.Model.Name
import Feedforward.Model.Basic
import Feedforward.Document.Assignment
import Feedforward.Document.Declaration
import Feedforward.Document.Draft
import Feedforward.Document.Reading
import Feedforward.Document.Layout
import Feedforward.Code.Writer
import Feedforward.Code.Program
import Feedforward.Code.Transpile
import Feedforward.Number.Double
import Feedforward.Number.Shortest
import Feedforward.Json.Fault
import Feedforward.Json.Lexical
import Feedforward.Json.Number
import Feedforward.Json.Skip
import Feedforward.Json.Found
import Feedforward.FileTree
import Feedforward.Settings
import Feedforward.Command.Arguments
import Feedforward.Command.SelfCheck
import Feedforward.Command.Run
import Feedforward.Main
import Feedforward.Proofs.Lexical.Grammar
import Feedforward.Proofs.Lexical.Soundness
import Feedforward.Proofs.Lexical.Completeness
import Feedforward.Proofs.Lexical.Lookahead
import Feedforward.Proofs.Lexical.Cutting
import Feedforward.Proofs.Lexical.Rules
import Feedforward.Proofs.Lexical.Spans
import Feedforward.Proofs.Lexical.Alternatives
import Feedforward.Proofs.Lexical.LineEnds
import Feedforward.Proofs.Lexical.LineByLine
import Feedforward.Proofs.Lexical.Chunks
import Feedforward.Proofs.Lexical.Display
import Feedforward.Proofs.Lexical.Returns
import Feedforward.Proofs.Writing
import Feedforward.Proofs.Lines
import Feedforward.Proofs.Document.Forms
import Feedforward.Proofs.Document.Recognition
import Feedforward.Proofs.Document.Reading
import Feedforward.Proofs.Document.Canonical
import Feedforward.Proofs.Document.RoundTrip
import Feedforward.Proofs.Document.Reformatting
import Feedforward.Proofs.Document.Precedence
import Feedforward.Proofs.Document.Insertion
import Feedforward.Proofs.Document.Padding
import Feedforward.Proofs.Document.Order
import Feedforward.Proofs.Document.Stopping
import Feedforward.Proofs.Document.Checks
import Feedforward.Proofs.Document.Numbers
import Feedforward.Proofs.Document.Faults
import Feedforward.Proofs.Document.Names
import Feedforward.Proofs.Document.Opening
import Feedforward.Proofs.Document.Assignments
import Feedforward.Proofs.Naming
import Feedforward.Proofs.Nesting
import Feedforward.Proofs.Levels
import Feedforward.Proofs.Code.ReadBack
import Feedforward.Proofs.Code.Network
import Feedforward.Proofs.Code.Atoms
import Feedforward.Proofs.Code.Members
import Feedforward.Proofs.Code.Sections
import Feedforward.Proofs.Code.Blocks
import Feedforward.Proofs.Code.Recovery
import Feedforward.Proofs.Json.Grammar
import Feedforward.Proofs.Json.Strings
import Feedforward.Proofs.Json.Values
import Feedforward.Proofs.Settings.Loading
import Feedforward.Proofs.FileTree
import Feedforward.Proofs.OutputPath
import Feedforward.Proofs.Command.Outcome
