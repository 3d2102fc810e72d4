import SymbolicCalculus.SyntaxError.Basic

/-! The words that a report puts around a marked source line. -/

set_option autoImplicit false

namespace SymbolicCalculus

/-- A word in the colour of expressions, for a terminal. -/
def emphasized (word : String) : String := "\x1b[38;2;52;235;152m" ++ word ++ "\x1b[0m"

namespace Fault

/-- What is said at each place of the fault. -/
def labels : Fault → List String
  | unexpectedEnd =>
    ["you might need to add another " ++ emphasized "expression" ++ " here"]
  | unexpectedToken expected _ =>
    ["expected one of: " ++ String.intercalate ", " (expected.map Token.Kind.label)]
  | missingOperator => ["this expression", "and this expression"]
  | numberTooLarge => ["this number"]
  | unclosedParenthesis _ => ["this parenthesis is not closed"]
  | emptyParenthesis => ["add an expression here"]
  | invalidLiteral _ => ["this literal"]

/-- Advice at the foot of the report. -/
def help : Fault → Option String
  | unexpectedEnd => none
  | unexpectedToken _ found => some ("found " ++ found.label)
  | missingOperator =>
    some ("add " ++ emphasized "`+`" ++ " or " ++ emphasized "`*`"
      ++ " between them; implicit multiplication is not supported")
  | numberTooLarge => some ("this number does not fit in a " ++ emphasized "64-bit float")
  | unclosedParenthesis true => some "add a closing parenthesis `)` somewhere after this"
  | unclosedParenthesis false => some "add an opening parenthesis `(` somewhere before this"
  | emptyParenthesis => none
  | invalidLiteral _ => none

end Fault

/-- A report over a source: its first line, where it points, and what it says there. -/
structure Report where
  header : String
  position : Option Nat
  labels : List (String × Span)
  help : Option String
  deriving DecidableEq, Repr

namespace Report

def column (report : Report) : Option Nat := report.position.map (· + 1)

end Report

/-- The report of an error. One without a place is not drawn, and so gives no advice. -/
def SyntaxError.report (error : SyntaxError) : Report where
  header := error.message
  position := error.spans.head?.map Span.start
  labels := error.fault.labels.zip error.spans
  help := if error.spans.isEmpty then none else error.fault.help

end SymbolicCalculus
