import SymbolicCalculus.Expr.Basic

/-!
Symbolic derivatives by the sum and product rules. Nothing is simplified, so the shape of a
derivative follows the shape of the expression.
-/

set_option autoImplicit false

namespace SymbolicCalculus

/-- The derivative of a leaf: one for the variable with the given name, zero for all others. -/
def Atom.derivative (name : String) : Atom → Number
  | .var v => if v.name = name then .one else .zero
  | .number _ => .zero

namespace Expr

/-- The derivative of an operation on `f` and `g`, from their derivatives. -/
def derivativeRule (f df g dg : Expr) : Operator → Expr
  | .add => add df dg
  | .mul => add (mul df g) (mul f dg)

mutual

/-- The partial derivative with respect to the variable of the given name. A name that no variable
can have makes all leaves constant. -/
def derivative (name : String) (e : Expr) : Expr :=
  derivativeSteps name (number (e.leftmost.derivative name)) e.spine
termination_by 2 * e.size
decreasing_by have := e.stepsSize_spine_lt; omega

/-- The derivative of the outermost of some steps, from that of the left operand of the first. -/
def derivativeSteps (name : String) (df : Expr) : List Step → Expr
  | [] => df
  | ⟨op, f, g⟩ :: steps =>
    derivativeSteps name (derivativeRule f df g (derivative name g) op) steps
termination_by steps => 2 * stepsSize steps + 1
decreasing_by all_goals simp only [stepsSize_cons]; omega

end

theorem derivativeSteps_append (name : String) (df : Expr) (steps more : List Step) :
    derivativeSteps name df (steps ++ more) =
      derivativeSteps name (derivativeSteps name df steps) more := by
  induction steps generalizing df with
  | nil => simp [derivativeSteps]
  | cons step steps ih =>
    obtain ⟨op, f, g⟩ := step
    simp only [List.cons_append, derivativeSteps, ih]

@[simp] theorem derivative_atom (name : String) (value : Atom) :
    derivative name (atom value) = number (value.derivative name) := by
  simp [derivative, derivativeSteps]

@[simp] theorem derivative_number (name : String) (n : Number) :
    derivative name (number n) = number .zero := derivative_atom name (.number n)

@[simp] theorem derivative_operation (name : String) (op : Operator) (left right : Expr) :
    derivative name (operation op left right) =
      derivativeRule left (derivative name left) right (derivative name right) op := by
  rw [derivative, spine_operation, leftmost_operation, derivativeSteps_append]
  conv => rhs; rw [derivative.eq_1 name left]
  simp only [derivativeSteps]

end Expr

end SymbolicCalculus
