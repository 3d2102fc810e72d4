import SymbolicCalculus.Refusal
import SymbolicCalculus.Token.Basic

/-! What can be wrong with a text, and where. -/

set_option autoImplicit false

namespace SymbolicCalculus

inductive Fault where
  | unexpectedEnd
  | unexpectedToken (expected : List Token.Kind) (found : Token.Kind)
  | missingOperator
  | numberTooLarge
  /-- An opening parenthesis that nothing closes, or else a closing one that nothing opened. -/
  | unclosedParenthesis (opening : Bool)
  | emptyParenthesis
  /-- Only trees that were not read from a text have such literals. -/
  | invalidLiteral (reason : Refusal)
  deriving DecidableEq, Repr

def Fault.message : Fault → String
  | unexpectedEnd => "unexpected end of input"
  | unexpectedToken _ _ => "unexpected token"
  | missingOperator => "missing operator between expressions"
  | numberTooLarge => "number literal is too large"
  | unclosedParenthesis _ => "unclosed parenthesis"
  | emptyParenthesis => "missing expression inside parenthesis"
  | invalidLiteral reason => "invalid literal: " ++ reason.message

/-- A fault and the places it concerns. -/
structure SyntaxError where
  spans : List Span
  fault : Fault
  deriving DecidableEq, Repr

namespace SyntaxError

def message (error : SyntaxError) : String := error.fault.message

def unexpected (expected : List Token.Kind) (found : Token) : SyntaxError :=
  ⟨[found.span], .unexpectedToken expected found.kind⟩

end SyntaxError

end SymbolicCalculus
