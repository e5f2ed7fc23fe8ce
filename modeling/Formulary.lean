import Formulary.Bindings
import Formulary.Catalogue
import Formulary.Clock
import Formulary.CommandLine.Argument
import Formulary.CommandLine.Invocation
import Formulary.CommandLine.Run
import Formulary.Console.Basic
import Formulary.Console.Command
import Formulary.Decimal.Layout
import Formulary.Decimal.Shortest
import Formulary.Discovery.Bridge
import Formulary.Discovery.Workflow
import Formulary.Document.Edit
import Formulary.Document.Index
import Formulary.Document.Position
import Formulary.Document.Scan
import Formulary.Document.Server
import Formulary.Error.Kind
import Formulary.Error.Reading
import Formulary.Error.Running
import Formulary.Eval.Basic
import Formulary.Eval.Run
import Formulary.Files.Path
import Formulary.Files.Tree
import Formulary.History
import Formulary.Json.Basic
import Formulary.Json.Parse
import Formulary.Main
import Formulary.Primitive.Basic
import Formulary.Primitive.Formula
import Formulary.Primitive.Number
import Formulary.Proofs.AppliedPrimitives
import Formulary.Proofs.Atomicity
import Formulary.Proofs.Balance
import Formulary.Proofs.BalancedDepth
import Formulary.Proofs.Buffering
import Formulary.Proofs.Calls
import Formulary.Proofs.Composition
import Formulary.Proofs.Continuation
import Formulary.Proofs.Coupling
import Formulary.Proofs.CursorWords
import Formulary.Proofs.Diagnostics
import Formulary.Proofs.Edits
import Formulary.Proofs.Evaluation
import Formulary.Proofs.ExactArithmetic
import Formulary.Proofs.ExpandFirst
import Formulary.Proofs.Expansion
import Formulary.Proofs.ExpansionChain
import Formulary.Proofs.FiniteArithmetic
import Formulary.Proofs.FiniteFloats
import Formulary.Proofs.FloatRange
import Formulary.Proofs.FormalNames
import Formulary.Proofs.FullExpansion
import Formulary.Proofs.HistoryLoading
import Formulary.Proofs.Indexing
import Formulary.Proofs.IntRange
import Formulary.Proofs.Invariant
import Formulary.Proofs.JoinedTexts
import Formulary.Proofs.Lexing
import Formulary.Proofs.LinePlaces
import Formulary.Proofs.MentionedNames
import Formulary.Proofs.Nesting
import Formulary.Proofs.Numeral
import Formulary.Proofs.OpenCalls
import Formulary.Proofs.OwnFrame
import Formulary.Proofs.RaisedBound
import Formulary.Proofs.ReadFailures
import Formulary.Proofs.Reading
import Formulary.Proofs.Recovery
import Formulary.Proofs.RoundTrip
import Formulary.Proofs.Scanning
import Formulary.Proofs.Seams
import Formulary.Proofs.SessionRange
import Formulary.Proofs.StrictTemplates
import Formulary.Proofs.Termination
import Formulary.Proofs.Tiling
import Formulary.Proofs.Workflow
import Formulary.Proofs.WorkflowText
import Formulary.Reader.Form
import Formulary.Reader.Lexer
import Formulary.Reader.Piece
import Formulary.Reader.Token
import Formulary.Scope
import Formulary.Scope.Forest
import Formulary.Session.Basic
import Formulary.Session.Load
import Formulary.Settings
import Formulary.SpecialForm
import Formulary.Template.Basic
import Formulary.Template.Expand
import Formulary.Text.Blank
import Formulary.Text.Digit
import Formulary.Text.Printable
import Formulary.Text.Quoted
import Formulary.Text.Replace
import Formulary.Text.Utf8
import Formulary.Value.Basic
import Formulary.Value.Compare
import Formulary.Value.Print
