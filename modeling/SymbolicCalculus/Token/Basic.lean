import SymbolicCalculus.Text.Span

/-! Tokens: the pieces that a text is cut into before it is read. -/

set_option autoImplicit false

namespace SymbolicCalculus

/-- A symbol is any one character that starts no other token. -/
inductive Token.Kind where
  | whitespace
  | add
  | mul
  | openParen
  | closeParen
  | name
  | int
  | float
  | symbol
  deriving DecidableEq, Repr

structure Token where
  kind : Token.Kind
  span : Span
  lexeme : String
  deriving DecidableEq, Repr

namespace Token.Kind

def all : List Token.Kind :=
  [whitespace, add, mul, openParen, closeParen, name, int, float, symbol]

/-- The name that messages and stored data use. -/
def label : Token.Kind → String
  | whitespace => "Whitespace"
  | add => "Add"
  | mul => "Mul"
  | openParen => "OpenParen"
  | closeParen => "CloseParen"
  | name => "Name"
  | int => "Int"
  | float => "Float"
  | symbol => "Symbol"

def ofLabel? (text : String) : Option Token.Kind := all.find? (·.label == text)

def isWhitespace : Token.Kind → Bool
  | whitespace => true
  | _ => false

def startsPrimary : Token.Kind → Bool
  | int | float | name | openParen => true
  | _ => false

theorem ofLabel?_label (kind : Token.Kind) : ofLabel? kind.label = some kind := by
  cases kind <;> rfl

end Token.Kind

namespace Token

def isWhitespace (token : Token) : Bool := token.kind.isWhitespace

/-- The change that a token makes to a number of open parentheses. A closing parenthesis that
closes nothing leaves it at zero. -/
def nesting (token : Token) (depth : Nat) : Nat :=
  match token.kind with
  | .openParen => depth + 1
  | .closeParen => depth - 1
  | _ => depth

end Token

end SymbolicCalculus
