import LineScript.Text.Blank
import LineScript.Text.Lines
import LineScript.Text.Printable
import LineScript.Text.Quoted
import LineScript.Text.DoubleQuoted
import LineScript.Number.Decimal
import LineScript.Number.Binary64
import LineScript.Number.Shortest
import LineScript.Number.Word
import LineScript.Class
import LineScript.Foreign
import LineScript.Failure
import LineScript.Failure.Catalogue
import LineScript.Fault
import LineScript.Value
import LineScript.Node
import LineScript.Token
import LineScript.Token.Lexeme
import LineScript.Token.Scan
import LineScript.Phrase
import LineScript.Sentence
import LineScript.Sentence.Progress
import LineScript.Statement
import LineScript.Table
import LineScript.Store
import LineScript.Event
import LineScript.Host
import LineScript.Machine
import LineScript.Evaluation
import LineScript.Session
import LineScript.Program
import LineScript.Console
import LineScript.CommandLine.Path
import LineScript.CommandLine.Options
import LineScript.CommandLine
import LineScript.Main
import LineScript.Proofs.Changes
import LineScript.Proofs.Entries
import LineScript.Proofs.Runs
import LineScript.Proofs.Coherence
import LineScript.Proofs.Soundness
import LineScript.Proofs.Permanence
import LineScript.Proofs.Ledger
import LineScript.Proofs.Footprint
import LineScript.Proofs.Spelling
import LineScript.Proofs.Lexing
import LineScript.Proofs.Acceptance
import LineScript.Proofs.Grammar
import LineScript.Proofs.Parsing
import LineScript.Proofs.Literals
import LineScript.Proofs.ReadBack
import LineScript.Proofs.Image
import LineScript.Proofs.Safety
import LineScript.Proofs.StaticTypes
import LineScript.Proofs.FirstValues
import LineScript.Proofs.Registration
import LineScript.Proofs.Lockstep
import LineScript.Proofs.Tracing
import LineScript.Proofs.Languages
import LineScript.Proofs.Expansion
import LineScript.Proofs.Watching
import LineScript.Proofs.Messages
import LineScript.Proofs.Logs
import LineScript.Proofs.Reports
import LineScript.Proofs.SingleStatements
import LineScript.Proofs.Targets
import LineScript.Proofs.ImplicitDeclarations
import LineScript.Proofs.Conversations
import LineScript.Proofs.Integers
import LineScript.Proofs.Precedence
import LineScript.Proofs.Refusals
import LineScript.Proofs.Invocations
import LineScript.Proofs.Layouts
import LineScript.Proofs.Composition
import LineScript.Proofs.Patterns
import LineScript.Proofs.MaximalMunch
import LineScript.Proofs.Rounding
import LineScript.Proofs.ShortestText
import LineScript.Proofs.PrintedFloats
