import TestLint.Main
import TestLint.Proofs.Text.Position
import TestLint.Proofs.Text.Cutting
import TestLint.Proofs.Text.Utf16
import TestLint.Proofs.Edit.Splicing
import TestLint.Proofs.Edit.Apply
import TestLint.Proofs.Edit.Selection
import TestLint.Proofs.Edit.Place
import TestLint.Proofs.Edit.Offset
import TestLint.Proofs.Edit.BottomUp
import TestLint.Proofs.Syntax.Nodes
import TestLint.Proofs.Syntax.WellFormed
import TestLint.Proofs.Syntax.Trivia
import TestLint.Proofs.Syntax.Name
import TestLint.Proofs.Expression.Operand
import TestLint.Proofs.Expression.Trivia
import TestLint.Proofs.Declaration.Places
import TestLint.Proofs.Declaration.Trivia
import TestLint.Proofs.Declaration.Conditional
import TestLint.Proofs.Declaration.Outline
import TestLint.Proofs.Check.AssertMeaning
import TestLint.Proofs.Check.FixesApply
import TestLint.Proofs.Check.MadePublic
import TestLint.Proofs.Check.PassedToken
import TestLint.Proofs.Check.ConditionValue
import TestLint.Proofs.Check.AssertOutcome
import TestLint.Proofs.Check.RewritingEnds
import TestLint.Proofs.Config.Form
import TestLint.Proofs.Config.Chain
import TestLint.Proofs.Config.Precedence
import TestLint.Proofs.Config.TableOrder
import TestLint.Proofs.Json.Tokens
import TestLint.Proofs.Json.Spelling
import TestLint.Proofs.Json.Record
import TestLint.Proofs.Report.RoundTrip
import TestLint.Proofs.PathOrder
import TestLint.Proofs.SortedNames
import TestLint.Proofs.DepthFirst
import TestLint.Proofs.Compilation.Numbering
import TestLint.Proofs.Compilation.Resolving
import TestLint.Proofs.Compilation.BaseTypes
import TestLint.Proofs.Compilation.BaseOrder
import TestLint.Proofs.Framework.Reach
import TestLint.Proofs.Check.TestMethodName
import TestLint.Proofs.Framework.Parts
import TestLint.Proofs.Analysis.Run
import TestLint.Proofs.Duplicate.EditScript
import TestLint.Proofs.Duplicate.Table
import TestLint.Proofs.Duplicate.Similarity
import TestLint.Proofs.Duplicate.Metric
import TestLint.Proofs.Duplicate.Tokens
import TestLint.Proofs.Duplicate.Layout
import TestLint.Proofs.Duplicate.Pairs
import TestLint.Proofs.Duplicate.Scheduling
import TestLint.Proofs.Suppression.Line
import TestLint.Proofs.Suppression.Replay
import TestLint.Proofs.Suppression.Pragma
import TestLint.Proofs.Suppression.Comment
import TestLint.Proofs.Analysis.Noninterference
import TestLint.Proofs.Analysis.Results
import TestLint.Proofs.Analysis.Cancellation
import TestLint.Proofs.Declaration.Nesting
import TestLint.Proofs.Edit.Repeated
import TestLint.Proofs.Syntax.TypeName
import TestLint.Proofs.Syntax.SpelledName
import TestLint.Proofs.Compilation.MetadataForm
import TestLint.Proofs.Compilation.WrittenName
import TestLint.Proofs.Compilation.Choosing
import TestLint.Proofs.Compilation.Qualifier
import TestLint.Proofs.Expression.LiteralValue
import TestLint.Proofs.Expression.LiteralForms
import TestLint.Proofs.Expression.WrittenArgument
import TestLint.Proofs.Check.RepeatedRow
import TestLint.Proofs.Expression.SameConstant
import TestLint.Proofs.Check.DistinctRows
import TestLint.Proofs.Check.ParameterForm
import TestLint.Proofs.Check.RowBinding
import TestLint.Proofs.Compilation.WholeType
import TestLint.Proofs.Check.TypeVerdict
import TestLint.Proofs.Suppression.NamedFile
import TestLint.Proofs.Config.OverridePatterns
import TestLint.Proofs.Report.FileUri
import TestLint.Proofs.Expression.LiteralOperand
import TestLint.Proofs.Expression.IntegerLiteral
import TestLint.Proofs.Syntax.Address
import TestLint.Proofs.Compilation.Handle
import TestLint.Proofs.Declaration.Calls
import TestLint.Proofs.Declaration.Accessors
