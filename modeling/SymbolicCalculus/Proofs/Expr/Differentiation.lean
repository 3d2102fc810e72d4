import Mathlib.Algebra.DualNumber
import Mathlib.Tactic.Ring
import SymbolicCalculus.Expr.Derivative
import SymbolicCalculus.Proofs.Expr.Evaluation

/-!
What derivatives are, as trees and as values. Over dual numbers an expression takes its own value
and, as the part at `ε`, that of its derivative. As values, derivatives do not depend on the order
in which they are taken.
-/

set_option autoImplicit false

namespace SymbolicCalculus

open TrivSqZeroExt

namespace Expr

/-! ## The rules -/

/-- Differentiation by the rules alone, one for each kind of node. -/
def differentiated (name : String) : Expr → Expr
  | atom (.number _) => number .zero
  | atom (.var v) => if v.name = name then number .one else number .zero
  | operation .add left right => add (left.differentiated name) (right.differentiated name)
  | operation .mul left right =>
    add (mul (left.differentiated name) right) (mul left (right.differentiated name))

/-- Going along left spines comes to the same tree as the rules, with nothing simplified and all
operands in their order. -/
theorem derivative_eq_differentiated (name : String) (e : Expr) :
    derivative name e = e.differentiated name := by
  induction e with
  | atom value =>
    rw [derivative_atom]
    cases value with
    | number n => rfl
    | var v => exact apply_ite number (v.name = name) .one .zero
  | operation op left right ihLeft ihRight =>
    rw [derivative_operation, ihLeft, ihRight]
    cases op with
    | add => rfl
    | mul => rfl

end Expr

/-! ## Values over dual numbers -/

/-- The variable of the given name is moved by `ε`, and all others stay. -/
def perturb (env : String → ℚ) (name v : String) : DualNumber ℚ :=
  if v = name then inl (env v) + DualNumber.eps else inl (env v)

theorem fst_perturb (env : String → ℚ) (name v : String) : (perturb env name v).fst = env v := by
  unfold perturb
  split <;> simp

theorem Atom.eval_derivative (env : String → ℚ) (name : String) (value : Atom) :
    (Expr.number (value.derivative name)).eval env =
      ((Expr.atom value).eval (perturb env name)).snd := by
  cases value with
  | number n =>
    simp [Atom.derivative, Number.zero, Double.toRat_zero, Expr.eval, algebraMap_eq_inl]
  | var v =>
    rw [Expr.eval_var, perturb]
    by_cases same : v.name = name
    · simp [Atom.derivative, same, Number.one, Double.toRat_one]
    · simp [Atom.derivative, same, Number.zero, Double.toRat_zero]

namespace Expr

theorem fst_eval_perturb (env : String → ℚ) (name : String) (e : Expr) :
    (e.eval (perturb env name)).fst = e.eval env := by
  have same := e.eval_map (fstHom ℚ ℚ ℚ) (perturb env name)
  simp only [fstHom_apply, fst_perturb] at same
  exact same.symm

/-- The rule for an operation is the product rule of dual numbers. -/
theorem eval_derivativeRule (env : String → ℚ) {f df g dg : Expr} {a b : DualNumber ℚ}
    (op : Operator) (left : f.eval env = a.fst) (dleft : df.eval env = a.snd)
    (right : g.eval env = b.fst) (dright : dg.eval env = b.snd) :
    (derivativeRule f df g dg op).eval env = (op.apply a b).snd := by
  cases op with
  | add => simp [derivativeRule, Operator.apply, dleft, dright]
  | mul =>
    -- Dual numbers have the two products of the rule in the other order.
    simp only [derivativeRule, Operator.apply, eval_add, eval_mul, left, dleft, right, dright,
      DualNumber.snd_mul]
    ring

theorem snd_eval_perturb (env : String → ℚ) (name : String) (e : Expr) :
    (e.eval (perturb env name)).snd = (derivative name e).eval env := by
  induction e with
  | atom value =>
    rw [derivative_atom]
    exact (value.eval_derivative env name).symm
  | operation op left right ihLeft ihRight =>
    rw [derivative_operation]
    symm
    apply eval_derivativeRule
    · exact (left.fst_eval_perturb env name).symm
    · exact ihLeft.symm
    · exact (right.fst_eval_perturb env name).symm
    · exact ihRight.symm

/-- Derivatives are true partial derivatives. -/
theorem eval_dual (e : Expr) (name : String) (env : String → ℚ) :
    (e.eval fun v => if v = name then inl (env v) + DualNumber.eps else inl (env v)) =
      inl (e.eval env) + DualNumber.eps * inl ((derivative name e).eval env) := by
  change e.eval (perturb env name) = _
  apply TrivSqZeroExt.ext
  · simp [fst_eval_perturb]
  · simp [snd_eval_perturb]

/-! ## Mixed derivatives -/

section

variable {R : Type*} [CommRing R] [Algebra ℚ R] (env : String → R) (name : String)

theorem eval_derivative_derivative_atom (name' : String) (value : Atom) :
    (derivative name' (derivative name (atom value))).eval env = 0 := by
  rw [derivative_atom, derivative_number, eval_number, Number.zero, Double.toRat_zero, map_zero]

theorem eval_derivative_add (f g : Expr) :
    (derivative name (add f g)).eval env =
      (derivative name f).eval env + (derivative name g).eval env := by
  rw [add, derivative_operation]
  rfl

theorem eval_derivative_mul (f g : Expr) :
    (derivative name (mul f g)).eval env =
      (derivative name f).eval env * g.eval env + f.eval env * (derivative name g).eval env := by
  rw [mul, derivative_operation]
  rfl

end

/-- Mixed derivatives have the same values in either order, but not in general the same tree. -/
theorem eval_derivative_comm :
    (∀ (e : Expr) (x y : String) (env : String → ℚ),
      (derivative y (derivative x e)).eval env = (derivative x (derivative y e)).eval env) ∧
      ∃ (e : Expr) (x y : String),
        derivative y (derivative x e) ≠ derivative x (derivative y e) := by
  constructor
  · intro e x y env
    induction e with
    | atom value => rw [eval_derivative_derivative_atom, eval_derivative_derivative_atom]
    | operation op left right ihLeft ihRight =>
      rw [derivative_operation, derivative_operation]
      cases op with
      | add =>
        simp only [derivativeRule, eval_derivative_add]
        rw [ihLeft, ihRight]
      | mul =>
        simp only [derivativeRule, eval_derivative_add, eval_derivative_mul]
        rw [ihLeft, ihRight]
        ring
  · refine ⟨mul (atom (.var ⟨"x", by decide⟩)) (atom (.var ⟨"y", by decide⟩)), "x", "y", ?_⟩
    decide +kernel

end Expr

end SymbolicCalculus
