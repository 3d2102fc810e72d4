import SymbolicCalculus.Command
import SymbolicCalculus.Data.Tree
import SymbolicCalculus.Derive.Expansion
import SymbolicCalculus.Expr.PostOrder
import SymbolicCalculus.Main
import SymbolicCalculus.Proofs.Syntax.Cursor
import SymbolicCalculus.Proofs.Syntax.Operand
import SymbolicCalculus.Proofs.Syntax.Climbing
import SymbolicCalculus.Proofs.Syntax.Prefix
import SymbolicCalculus.Proofs.Syntax.Recognition
import SymbolicCalculus.Proofs.Syntax.Completeness
import SymbolicCalculus.Proofs.Syntax.Diagnosis
import SymbolicCalculus.Proofs.Double.Nearest
import SymbolicCalculus.Proofs.Double.Shortest
import SymbolicCalculus.Proofs.Double.Numeral
import SymbolicCalculus.Proofs.Expr.Reading
import SymbolicCalculus.Proofs.Expr.Lowering
import SymbolicCalculus.Proofs.Expr.RoundTrip
import SymbolicCalculus.Proofs.Expr.Differentiation
import SymbolicCalculus.Proofs.Expr.PostOrder
import SymbolicCalculus.Proofs.Expr.Equality
import SymbolicCalculus.Proofs.Text.Slice
import SymbolicCalculus.Proofs.Token.Cut
import SymbolicCalculus.Proofs.Token.Relocation
import SymbolicCalculus.Proofs.Syntax.Relocation
import SymbolicCalculus.Proofs.Syntax.Nodes
import SymbolicCalculus.Proofs.Text.Trim
import SymbolicCalculus.Proofs.Expr.Relocation
import SymbolicCalculus.Proofs.Token.Margins
import SymbolicCalculus.Proofs.Session.Line
import SymbolicCalculus.Proofs.Session.Replay
import SymbolicCalculus.Proofs.Session.Agreement
import SymbolicCalculus.Proofs.Syntax.Places
import SymbolicCalculus.Proofs.Token.Order
import SymbolicCalculus.Proofs.Expr.Layout
import SymbolicCalculus.Proofs.Shell.Report
import SymbolicCalculus.Proofs.Double.Overflow
import SymbolicCalculus.Proofs.Token.Prolonging
import SymbolicCalculus.Proofs.Expr.Completion
import SymbolicCalculus.Proofs.Token.Joining
import SymbolicCalculus.Proofs.Syntax.Writing
import SymbolicCalculus.Proofs.Expr.Occurrence
import SymbolicCalculus.Proofs.Expr.Growth
import SymbolicCalculus.Proofs.Expr.RightNesting
import SymbolicCalculus.Proofs.Expr.Display
import SymbolicCalculus.Proofs.Expr.Fingerprint
import SymbolicCalculus.Proofs.Token.Partition
import SymbolicCalculus.Proofs.Syntax.Yield
import SymbolicCalculus.Proofs.Syntax.Precedence
import SymbolicCalculus.Proofs.SyntaxError.Drawing
import SymbolicCalculus.Proofs.Double.Rounding
import SymbolicCalculus.Proofs.Double.Reading
import SymbolicCalculus.Proofs.Derive.Arguments
import SymbolicCalculus.Proofs.Derive.Writing
import SymbolicCalculus.Proofs.Derive.Scope
import SymbolicCalculus.Proofs.Syntax.Matching
import SymbolicCalculus.Proofs.Expr.Rendering
import SymbolicCalculus.Proofs.Data.Reading
import SymbolicCalculus.Proofs.Syntax.Calls
import SymbolicCalculus.Proofs.Syntax.Termination
