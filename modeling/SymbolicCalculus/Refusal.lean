import SymbolicCalculus.Double.Shortest

/-! Why a value cannot be part of an expression. -/

set_option autoImplicit false

namespace SymbolicCalculus

/-- A number, name or operator symbol that no expression holds. -/
inductive Refusal where
  | negativeNumber (value : Double)
  | nonFiniteNumber (value : Double)
  | variableName (name : String)
  | operator (symbol : Char)
  deriving DecidableEq, Repr

def Refusal.message : Refusal → String
  | negativeNumber value => "number `" ++ value.text ++ "` is negative"
  | nonFiniteNumber value => "number `" ++ value.text ++ "` is not finite"
  | variableName name =>
    if name.isEmpty then "variable name is empty"
    else "variable name `" ++ name ++ "` must only contain the letters a-z and A-Z"
  | operator symbol => "`" ++ symbol.toString ++ "` is not an operator; expected `+` or `*`"

end SymbolicCalculus
