import SymbolicCalculus.Expr.Derivative
import SymbolicCalculus.Expr.OfTree
import SymbolicCalculus.Expr.Render
import SymbolicCalculus.SyntaxError.Report

/-! Differentiating one text: from text to text. -/

set_option autoImplicit false

namespace SymbolicCalculus

namespace Command

inductive Error where
  | syntaxError (error : SyntaxError)
  | invalidVariable (reason : Refusal)
  deriving DecidableEq, Repr

namespace Error

/-- What went wrong, without saying what was to be done. -/
def cause : Error → String
  | syntaxError error => error.message
  | invalidVariable reason => reason.message

def message (error : Error) : String :=
  match error with
  | syntaxError _ => "syntax error: " ++ error.cause
  | invalidVariable _ => "cannot differentiate: " ++ error.cause

/-- The first line of the report. A report on a syntax error is headed by the error itself. -/
def headline : Error → String
  | syntaxError error => "Error: " ++ error.report.header
  | invalidVariable reason => "Error: " ++ (invalidVariable reason).message

end Error

/-- The derivative of the expression in a text. A wrong expression is noticed before a wrong
variable. -/
def differentiate (source variableName : String) : Except Error String :=
  match Expr.parse source with
  | .error error => .error (.syntaxError error)
  | .ok e =>
    match Variable.ofName variableName with
    | .error reason => .error (.invalidVariable reason)
    | .ok v => .ok (e.derivative v.name).render

end Command

end SymbolicCalculus
