import SymbolicCalculus.Expr.Derivative
import SymbolicCalculus.Expr.OfTree
import SymbolicCalculus.Expr.Render
import SymbolicCalculus.Text.Blank

/-!
A session takes one line after another and keeps the expression of the last line that succeeded. A
line is an expression, or the command `!d/d<variable>`, which differentiates the kept expression.
-/

set_option autoImplicit false

namespace SymbolicCalculus

structure Session where
  current : Option Expr
  deriving DecidableEq, Repr

namespace Session

inductive Error where
  | syntaxError (error : SyntaxError)
  | unknownCommand (command : String)
  | noCurrentExpression
  | invalidVariable (reason : Refusal)
  deriving DecidableEq, Repr

def Error.message : Error → String
  | syntaxError error => error.message
  | unknownCommand command =>
    "unknown command `!" ++ command ++ "`; the only command is `!d/d<variable>`"
  | noCurrentExpression => "there is no expression to differentiate yet"
  | invalidVariable reason => reason.message

def new : Session := ⟨none⟩

/-- The expression that a command gives. A wrong name is noticed before a missing expression. -/
def command (session : Session) (text : List Char) : Except Error Expr :=
  match text with
  | 'd' :: '/' :: 'd' :: name =>
    match Variable.ofName (String.ofList (trimChars name)) with
    | .error reason => .error (.invalidVariable reason)
    | .ok v =>
      match session.current with
      | none => .error .noCurrentExpression
      | some e => .ok (e.derivative v.name)
  | _ => .error (.unknownCommand (String.ofList text))

def evaluate (session : Session) (line : String) : Except Error Expr :=
  match trimChars line.toList with
  | '!' :: text => session.command (trimChars text)
  | text =>
    match Expr.parse (String.ofList text) with
    | .error error => .error (.syntaxError error)
    | .ok e => .ok e

/-- The text that answers a line, and the session behind it. A line that fails changes nothing. -/
def execute (session : Session) (line : String) : Except Error String × Session :=
  match session.evaluate line with
  | .error error => (.error error, session)
  | .ok e => (.ok e.render, ⟨some e⟩)

end Session

end SymbolicCalculus
