import SearchSql.CommandLine.Arguments
import SearchSql.CommandLine.Run
import SearchSql.Diagnostic
import SearchSql.Document.Basic
import SearchSql.Document.Statements
import SearchSql.Document.Tokens
import SearchSql.Document.Trees
import SearchSql.Grammar.Aggregates
import SearchSql.Grammar.Calls
import SearchSql.Grammar.Constants
import SearchSql.Grammar.Derivation
import SearchSql.Grammar.Event
import SearchSql.Grammar.Expressions
import SearchSql.Grammar.Lookahead
import SearchSql.Grammar.Names
import SearchSql.Grammar.Nonterminal
import SearchSql.Grammar.Operators
import SearchSql.Grammar.Outcome
import SearchSql.Grammar.Parser
import SearchSql.Grammar.Queries
import SearchSql.Grammar.Recovery
import SearchSql.Grammar.Relevance
import SearchSql.Json.Reader
import SearchSql.Main
import SearchSql.Number.Binary64
import SearchSql.Number.Integer
import SearchSql.Number.Notation
import SearchSql.Number.Real
import SearchSql.Number.Shortest
import SearchSql.Settings.Basic
import SearchSql.Settings.Document
import SearchSql.Text.Alphabetic
import SearchSql.Text.CharClass
import SearchSql.Text.Numeric
import SearchSql.Text.Quoted
import SearchSql.Text.Span
import SearchSql.Text.Word
import SearchSql.Time.Calendar
import SearchSql.Time.Library
import SearchSql.Time.Reading
import SearchSql.Token.Basic
import SearchSql.Token.Cursor
import SearchSql.Token.Keyword
import SearchSql.Token.Scan
import SearchSql.Tree.Expr
import SearchSql.Tree.Extent
import SearchSql.Tree.Name
import SearchSql.Tree.Query
import SearchSql.Tree.Rendering
import SearchSql.Vocabulary.DataType
import SearchSql.Vocabulary.Datetime
import SearchSql.Vocabulary.Function
import SearchSql.Proofs.Congruence
import SearchSql.Proofs.Agreement
import SearchSql.Proofs.Budget
import SearchSql.Proofs.Lexing
import SearchSql.Proofs.NumberText
import SearchSql.Proofs.Rounding
import SearchSql.Proofs.ShortestDigits
import SearchSql.Proofs.RealText
import SearchSql.Proofs.Limits
import SearchSql.Proofs.Tiling
import SearchSql.Proofs.Sight
import SearchSql.Proofs.Likeness
import SearchSql.Proofs.LeafLikeness
import SearchSql.Proofs.RuleLikeness
import SearchSql.Proofs.QueryLikeness
import SearchSql.Proofs.Cutting
import SearchSql.Proofs.Slices
import SearchSql.Proofs.TimeText
import SearchSql.Proofs.Outline
import SearchSql.Proofs.Spelling
import SearchSql.Proofs.Reading
import SearchSql.Proofs.LeafReading
import SearchSql.Proofs.ValueReading
import SearchSql.Proofs.LiteralReading
import SearchSql.Proofs.RuleReading
import SearchSql.Proofs.QueryReading
import SearchSql.Proofs.Contract
import SearchSql.Proofs.RuleContract
import SearchSql.Proofs.Quota
import SearchSql.Proofs.Recovering
import SearchSql.Proofs.SourceOrder
import SearchSql.Proofs.Checked
import SearchSql.Proofs.Bounds
import SearchSql.Proofs.Writing
import SearchSql.Proofs.PatternText
import SearchSql.Proofs.StatementReading
import SearchSql.Proofs.Formatting
import SearchSql.Proofs.NameReading
import SearchSql.Proofs.EndOfInput
import SearchSql.Proofs.CaseIndependence
import SearchSql.Proofs.Layout
import SearchSql.Proofs.Ahead
import SearchSql.Proofs.Progress
import SearchSql.Proofs.Ladders
import SearchSql.Proofs.RuleBuilding
import SearchSql.Proofs.Chains
import SearchSql.Proofs.RankedTrees
import SearchSql.Proofs.SubqueryRecovery
import SearchSql.Proofs.ClauseIsolation
import SearchSql.Proofs.Attempts
import SearchSql.Proofs.Constants
import SearchSql.Proofs.Reported
import SearchSql.Proofs.RuleRecording
import SearchSql.Proofs.MalformedLiterals
import SearchSql.Proofs.NumberConstants
import SearchSql.Proofs.SideBySide
import SearchSql.Proofs.LeadingCall
import SearchSql.Proofs.FieldReading
import SearchSql.Proofs.EagerFilters
import SearchSql.Proofs.Portable
import SearchSql.Proofs.RelevanceSpellings
import SearchSql.Proofs.Reaching
import SearchSql.Proofs.Separating
import SearchSql.Proofs.Delimiting
import SearchSql.Proofs.Unambiguous
import SearchSql.Proofs.NumberLexemes
import SearchSql.Proofs.Resynchronizing
import SearchSql.Proofs.PatternRereading
import SearchSql.Proofs.Expecting
import SearchSql.Proofs.LookingOver
import SearchSql.Proofs.RoundTrip
