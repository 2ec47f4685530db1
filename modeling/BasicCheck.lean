import BasicCheck.Text.Alphabetic
import BasicCheck.Text.Numeric
import BasicCheck.Text.Printable
import BasicCheck.Text.LetterCase
import BasicCheck.Span
import BasicCheck.Token.Kind
import BasicCheck.Text.Quoted
import BasicCheck.Token
import BasicCheck.Builtin
import BasicCheck.Diagnostic
import BasicCheck.Token.Lexeme
import BasicCheck.Token.Lexed
import BasicCheck.Expr
import BasicCheck.Statement.Parts
import BasicCheck.Label
import BasicCheck.Symbol.Table
import BasicCheck.Procedure
import BasicCheck.Parse.State
import BasicCheck.Parse.Expression
import BasicCheck.Parse.Decision
import BasicCheck.Parse.Procedure
import BasicCheck.Reachability
import BasicCheck.Assignment
import BasicCheck.Report
import BasicCheck.Editor.Completion
import BasicCheck.CommandLine
import BasicCheck.Main
import BasicCheck.Proofs.Token.Lossless
import BasicCheck.Proofs.Token.Interposed
import BasicCheck.Proofs.Parse.Action
import BasicCheck.Proofs.Parse.Block
import BasicCheck.Proofs.Parse.Procedure
import BasicCheck.Proofs.Parse.References
import BasicCheck.Proofs.Editor.Agreement
import BasicCheck.Proofs.Editor.Lookup
import BasicCheck.Proofs.Assignment.Unassigned
import BasicCheck.Proofs.Reachability.Unreachable
import BasicCheck.Proofs.Print.RoundTrip
import BasicCheck.Proofs.Print.Statements
import BasicCheck.Proofs.Symbol.Labels
import BasicCheck.Proofs.Parse.Labels
import BasicCheck.Proofs.Symbol.Reached
import BasicCheck.Proofs.Assignment.Proven
import BasicCheck.Proofs.Mention.Procedure
import BasicCheck.Proofs.LetterCase.Analysis
import BasicCheck.Proofs.Editor.History
import BasicCheck.Proofs.WellFormed
import BasicCheck.Proofs.Extent.Cover
import BasicCheck.Proofs.Progress.Finish
import BasicCheck.Proofs.Recovery.Procedure
import BasicCheck.Proofs.Region.Procedure
import BasicCheck.Proofs.Expression.Target
import BasicCheck.Proofs.Assignment.Counter
import BasicCheck.Proofs.Declared.Classes
import BasicCheck.Proofs.Declared.Matrices
import BasicCheck.Proofs.Declared.Names
import BasicCheck.Proofs.Reachability.Enclosing
import BasicCheck.Proofs.Print.Glued
import BasicCheck.Proofs.Print.Fork
import BasicCheck.Proofs.Symbol.Speculation
import BasicCheck.Proofs.Symbol.Resolution
import BasicCheck.Proofs.Token.StatementStart
import BasicCheck.Proofs.Token.Respaced
import BasicCheck.Proofs.Assignment.Inlining
import BasicCheck.Proofs.Assignment.Antitone
import BasicCheck.Proofs.Label.First
