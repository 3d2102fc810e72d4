import SymbolicCalculus.Refusal

/-! The two operators and how tightly they bind. -/

set_option autoImplicit false

namespace SymbolicCalculus

inductive Operator where
  | add
  | mul
  deriving DecidableEq, Repr

/-- How tightly the operators of a chain must bind at least. -/
inductive Precedence where
  | any
  | term
  | factor
  deriving DecidableEq, Repr

namespace Precedence

def level : Precedence → Nat
  | any => 0
  | term => 1
  | factor => 2

instance : LE Precedence := ⟨fun p q => p.level ≤ q.level⟩

instance : LT Precedence := ⟨fun p q => p.level < q.level⟩

instance (p q : Precedence) : Decidable (p ≤ q) := Nat.decLe p.level q.level

instance (p q : Precedence) : Decidable (p < q) := Nat.decLt p.level q.level

end Precedence

namespace Operator

/-- Products bind tighter than sums. -/
def precedence : Operator → Precedence
  | add => .term
  | mul => .factor

def symbol : Operator → Char
  | add => '+'
  | mul => '*'

def ofSymbol : Char → Except Refusal Operator
  | '+' => .ok add
  | '*' => .ok mul
  | other => .error (.operator other)

/-- The symbol with a blank on both sides, as both kinds of tree are written. -/
def spaced (op : Operator) : String := String.ofList [' ', op.symbol, ' ']

theorem ofSymbol_symbol (op : Operator) : ofSymbol op.symbol = .ok op := by cases op <;> rfl

end Operator

end SymbolicCalculus
