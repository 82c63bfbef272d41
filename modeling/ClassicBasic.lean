import ClassicBasic.CommandLine
import ClassicBasic.Main
import ClassicBasic.Proofs.Expr.Precedence
import ClassicBasic.Proofs.Expr.Groups
import ClassicBasic.Proofs.Except
import ClassicBasic.Proofs.Text.Blank
import ClassicBasic.Proofs.Statement.InlineIf
import ClassicBasic.Proofs.Expr.Grammar
import ClassicBasic.Proofs.Expr.Scanning
import ClassicBasic.Proofs.Expr.Lexed
import ClassicBasic.Proofs.Expr.Parsing
import ClassicBasic.Proofs.Machine.Effect
import ClassicBasic.Proofs.Machine.Stepping
import ClassicBasic.Proofs.Machine.Addresses
import ClassicBasic.Proofs.Machine.Loops
import ClassicBasic.Proofs.Machine.Subroutines
import ClassicBasic.Proofs.Machine.Budget
import ClassicBasic.Proofs.Expr.BigStep
import ClassicBasic.Proofs.Machine.Termination
import ClassicBasic.Proofs.Grid
import ClassicBasic.Proofs.Machine.Atomicity
import ClassicBasic.Proofs.Machine.ArrayHistory
import ClassicBasic.Proofs.Machine.ReadBack
import ClassicBasic.Proofs.Machine.Renumbering
import ClassicBasic.Proofs.Machine.Placeless
import ClassicBasic.Proofs.Machine.LineSplit
import ClassicBasic.Proofs.Machine.LineSplitRuns
import ClassicBasic.Proofs.Contract
import ClassicBasic.Proofs.Expr.Builtins
import ClassicBasic.Proofs.Expr.Proper
import ClassicBasic.Proofs.Expr.Blanks
import ClassicBasic.Proofs.Expr.Faults
import ClassicBasic.Proofs.Expr.NumericCheck
import ClassicBasic.Proofs.Machine.RuntimeFaults
import ClassicBasic.Proofs.Pattern
import ClassicBasic.Proofs.Statement.Blocks
import ClassicBasic.Proofs.Statement.NestedIf
import ClassicBasic.Proofs.Statement.Patterns
import ClassicBasic.Proofs.Text.Composition
import ClassicBasic.Proofs.Statement.Rendering
import ClassicBasic.Proofs.Expr.Composition
import ClassicBasic.Proofs.Statement.Filling
import ClassicBasic.Proofs.Statement.Clauses
import ClassicBasic.Proofs.Statement.PrintLists
import ClassicBasic.Proofs.Statement.Written
import ClassicBasic.Proofs.Statement.RoundTrip
import ClassicBasic.Proofs.Machine.Screen
import ClassicBasic.Proofs.Machine.DataStream
import ClassicBasic.Proofs.Machine.Kinds
import ClassicBasic.Proofs.Machine.QuotedLists
import ClassicBasic.Proofs.Program
import ClassicBasic.Proofs.Source
import ClassicBasic.Proofs.Expr.Cutting
import ClassicBasic.Proofs.Machine.PrintedExpressions
import ClassicBasic.Proofs.Grid.Sizes
import ClassicBasic.Proofs.Grid.Layout
import ClassicBasic.Proofs.Statement.KeywordNames
import ClassicBasic.Proofs.Machine.LoopUnrolling
import ClassicBasic.Proofs.Machine.Replies
import ClassicBasic.Proofs.Expr.CallDepth
import ClassicBasic.Proofs.Pattern.Compile
import ClassicBasic.Proofs.Text.Occurrence
import ClassicBasic.Proofs.Pattern.Layout
import ClassicBasic.Proofs.Pattern.Candidates
import ClassicBasic.Proofs.Machine.BareWords
import ClassicBasic.Proofs.Statement.InputLists
import ClassicBasic.Proofs.Text.Parentheses
import ClassicBasic.Proofs.Expr.FaultOffsets
import ClassicBasic.Proofs.Text.Splitting
import ClassicBasic.Proofs.Statement.WellFormed
