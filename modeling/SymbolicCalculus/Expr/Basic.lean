import SymbolicCalculus.Expr.Atom
import SymbolicCalculus.Operator

/-!
Expressions: trees of sums and products over numbers and variables, without places or parentheses.
A chain such as `a + b + c` nests to the left once per operator, so functions on expressions walk
the left spine in a loop and call themselves only for right operands.
-/

set_option autoImplicit false

namespace SymbolicCalculus

inductive Expr where
  | atom (value : Atom)
  | operation (op : Operator) (left right : Expr)
  deriving DecidableEq, Repr

namespace Expr

def number (value : Number) : Expr := atom (.number value)

def add (left right : Expr) : Expr := operation .add left right

def mul (left right : Expr) : Expr := operation .mul left right

def isOperation : Expr → Bool
  | operation _ _ _ => true
  | atom _ => false

def asNumber? : Expr → Option Number
  | atom (.number value) => some value
  | _ => none

def asVariable? : Expr → Option Variable
  | atom (.var v) => some v
  | _ => none

def size : Expr → Nat
  | atom _ => 1
  | operation _ left right => left.size + right.size + 1

theorem size_pos (e : Expr) : 0 < e.size := by
  cases e <;> simp [size]

/-- An operation on the left spine, with both its operands. -/
structure Step where
  op : Operator
  left : Expr
  right : Expr

/-- The nodes that come with the right operands of some steps. -/
def stepsSize : List Step → Nat
  | [] => 0
  | step :: steps => step.right.size + 1 + stepsSize steps

@[simp] theorem stepsSize_nil : stepsSize [] = 0 := rfl

@[simp] theorem stepsSize_cons (step : Step) (steps : List Step) :
    stepsSize (step :: steps) = step.right.size + 1 + stepsSize steps := rfl

/-- Walks down the left spine, collecting its steps on top of those given. -/
def unwind (steps : List Step) : Expr → Atom × List Step
  | atom value => (value, steps)
  | operation op left right => unwind (⟨op, left, right⟩ :: steps) left

def leftmost (e : Expr) : Atom := (e.unwind []).1

/-- The left spine from the innermost operation outwards. -/
def spine (e : Expr) : List Step := (e.unwind []).2

theorem unwind_append (e : Expr) (steps more : List Step) :
    e.unwind (steps ++ more) = ((e.unwind steps).1, (e.unwind steps).2 ++ more) := by
  induction e generalizing steps with
  | atom value => rfl
  | operation op left right ih _ => exact ih (⟨op, left, right⟩ :: steps)

@[simp] theorem leftmost_atom (value : Atom) : (atom value).leftmost = value := rfl

@[simp] theorem spine_atom (value : Atom) : (atom value).spine = [] := rfl

@[simp] theorem leftmost_operation (op : Operator) (left right : Expr) :
    (operation op left right).leftmost = left.leftmost := by
  simpa [leftmost, unwind] using congrArg Prod.fst (unwind_append left [] [⟨op, left, right⟩])

@[simp] theorem spine_operation (op : Operator) (left right : Expr) :
    (operation op left right).spine = left.spine ++ [⟨op, left, right⟩] := by
  simpa [spine, unwind] using congrArg Prod.snd (unwind_append left [] [⟨op, left, right⟩])

theorem stepsSize_unwind_lt (e : Expr) (steps : List Step) :
    stepsSize (e.unwind steps).2 < e.size + stepsSize steps := by
  induction e generalizing steps with
  | atom value => simp [unwind, size]
  | operation op left right ih _ =>
    have := ih (⟨op, left, right⟩ :: steps)
    simp only [unwind, size, stepsSize_cons] at *
    omega

theorem stepsSize_spine_lt (e : Expr) : stepsSize e.spine < e.size := stepsSize_unwind_lt e []

end Expr

end SymbolicCalculus
