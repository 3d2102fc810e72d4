import Mathlib.Algebra.Algebra.Hom
import Mathlib.Algebra.Algebra.Rat
import SymbolicCalculus.Expr.Basic
import SymbolicCalculus.Proofs.Double.Nearest

/-!
Values of expressions. Numbers count with the exact values of their doubles, and variables may take
values in any commutative algebra over the rationals.
-/

set_option autoImplicit false

namespace SymbolicCalculus

namespace Double

/-- The exact value of a finite double. -/
def toRat (x : Double) : ℚ := (if x.isSigned then -1 else 1) * ((x.steps : ℚ) / (stepsInOne : ℚ))

theorem toRat_zero : zero.toRat = 0 := by
  have steps : zero.steps = 0 := by decide
  rw [toRat, steps, Nat.cast_zero, zero_div, mul_zero]

theorem toRat_one : one.toRat = 1 := by
  have unsigned : one.isSigned = false := by decide
  have nonzero : (stepsInOne : ℚ) ≠ 0 := Nat.cast_ne_zero.mpr stepsInOne_pos.ne'
  rw [toRat, steps_one, unsigned, div_self nonzero]
  simp

end Double

namespace Operator

variable {R : Type*} [CommRing R]

def apply : Operator → R → R → R
  | add, a, b => a + b
  | mul, a, b => a * b

theorem map_apply {S : Type*} [CommRing S] (f : R →+* S) (op : Operator) (a b : R) :
    f (op.apply a b) = op.apply (f a) (f b) := by
  cases op with
  | add => exact map_add f a b
  | mul => exact map_mul f a b

end Operator

namespace Expr

variable {R : Type*} [CommRing R] [Algebra ℚ R]

def eval (env : String → R) : Expr → R
  | atom (.number n) => algebraMap ℚ R n.value.toRat
  | atom (.var v) => env v.name
  | operation op left right => op.apply (left.eval env) (right.eval env)

@[simp] theorem eval_number (env : String → R) (n : Number) :
    (number n).eval env = algebraMap ℚ R n.value.toRat := rfl

@[simp] theorem eval_var (env : String → R) (v : Variable) : (atom (.var v)).eval env = env v.name :=
  rfl

@[simp] theorem eval_add (env : String → R) (left right : Expr) :
    (add left right).eval env = left.eval env + right.eval env := rfl

@[simp] theorem eval_mul (env : String → R) (left right : Expr) :
    (mul left right).eval env = left.eval env * right.eval env := rfl

/-- Values follow maps of algebras. -/
theorem eval_map {S : Type*} [CommRing S] [Algebra ℚ S] (f : R →ₐ[ℚ] S) (env : String → R)
    (e : Expr) : e.eval (fun name => f (env name)) = f (e.eval env) := by
  induction e with
  | atom value =>
    cases value with
    | number n => exact (f.commutes _).symm
    | var v => rfl
  | operation op left right ihLeft ihRight =>
    rw [eval, eval, ihLeft, ihRight]
    exact (op.map_apply f.toRingHom _ _).symm

end Expr

end SymbolicCalculus
