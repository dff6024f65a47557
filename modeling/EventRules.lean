import EventRules.Text.Basic
import EventRules.Text.Numeral
import EventRules.Text.Blank
import EventRules.Text.Printable
import EventRules.Text.Quoted
import EventRules.Text.Utf8
import EventRules.Table
import EventRules.Source.Cursor
import EventRules.Source.Comment
import EventRules.Diagnostic.Basic
import EventRules.Diagnostic.Render
import EventRules.Value
import EventRules.Cron.Basic
import EventRules.Cron.Notation
import EventRules.Item.Parameter
import EventRules.Item.Basic
import EventRules.Config
import EventRules.Failure
import EventRules.Note
import EventRules.Attempt
import EventRules.Grammar.Parser
import EventRules.Grammar.Token
import EventRules.Grammar.Literal
import EventRules.Grammar.Expression
import EventRules.Symbols
import EventRules.Grammar.Item
import EventRules.Grammar.Matcher
import EventRules.Grammar.Statement
import EventRules.Compile
import EventRules.Text.Integer
import EventRules.File
import EventRules.CommandLine.Usage
import EventRules.CommandLine.Run
import EventRules.Main
import EventRules.Proofs.Text
import EventRules.Proofs.Numeral
import EventRules.Proofs.Cursor
import EventRules.Proofs.Outcome
import EventRules.Proofs.Schedule
import EventRules.Proofs.Typing
import EventRules.Proofs.Yields
import EventRules.Proofs.Soundness
import EventRules.Proofs.Declare
import EventRules.Proofs.Run
import EventRules.Proofs.WellTyped
import EventRules.Proofs.Reading
import EventRules.Proofs.LiteralReading
import EventRules.Proofs.Spelling
import EventRules.Proofs.Written
import EventRules.Proofs.WrittenStatement
import EventRules.Proofs.WrittenProgram
import EventRules.Proofs.Comments
import EventRules.Proofs.RoundTrip
import EventRules.Proofs.Display
import EventRules.Proofs.Description
import EventRules.Proofs.Alignment
import EventRules.Proofs.AlignedToken
import EventRules.Proofs.AlignedStatement
import EventRules.Proofs.Relocation
import EventRules.Proofs.RelocatedStatement
import EventRules.Proofs.Sequence
import EventRules.Proofs.DiagnosticTree
import EventRules.Proofs.Orderly
import EventRules.Proofs.OrderlyStatement
import EventRules.Proofs.Failure
import EventRules.Proofs.Redeclaration
import EventRules.Proofs.Alias
import EventRules.Proofs.Layout
import EventRules.Proofs.Commitment
import EventRules.Proofs.Crossing
import EventRules.Proofs.Derivation
import EventRules.Proofs.DerivedMatcher
import EventRules.Proofs.Quotation
import EventRules.Proofs.LiteralSpelling
import EventRules.Proofs.Composition
import EventRules.Proofs.Dispatch
import EventRules.Proofs.Carrying
import EventRules.Proofs.Extension
import EventRules.Proofs.Slots
import EventRules.Proofs.Locality
import EventRules.Proofs.OperandPlace
import EventRules.Proofs.Replacement
import EventRules.Proofs.Substitution
import EventRules.Proofs.ReadBack
import EventRules.Proofs.Termination
import EventRules.Proofs.Portable
import EventRules.Proofs.DerivedClause
import EventRules.Proofs.Block
import EventRules.Proofs.Shorthand
import EventRules.Proofs.Positional
import EventRules.Proofs.LiteralGrammar
import EventRules.Proofs.CallChecking
import EventRules.Proofs.ScheduleFormat
import EventRules.Proofs.Line
import EventRules.Proofs.CommentLine
import EventRules.Proofs.Outline
import EventRules.Proofs.MissingSemicolon
import EventRules.Proofs.Grouping
import EventRules.Proofs.ExpressionRun
import EventRules.Proofs.Discipline
