import SymbolicCalculus.Expr.Render

/-!
The text of an expression by recursion on it. What is written along the left spine opens all of its
parentheses in front of the first leaf, and each step closes the one that belongs to it.
-/

set_option autoImplicit false

namespace SymbolicCalculus

theorem Operator.spaced_eq (op : Operator) : op.spaced = " " ++ op.symbol.toString ++ " " := by
  cases op <;> rfl

namespace Expr

/-- The text of an operation, from those of its operands. -/
def parenthesized : Expr → String
  | atom value => value.text
  | operation op left right =>
    "(" ++ left.parenthesized ++ " " ++ op.symbol.toString ++ " " ++ right.parenthesized ++ ")"

/-- What is written for an operation on the spine when its left operand is written already. -/
def closing (step : Step) : String := step.op.spaced ++ step.right.render ++ ")"

theorem write_eq_append_render (out : String) (e : Expr) : write out e = out ++ e.render := by
  rw [render, ← write_append, String.append_empty]

theorem writeSteps_eq_append_join (out : String) (steps : List Step) :
    writeSteps out steps = out ++ String.join (steps.map closing) := by
  induction steps generalizing out with
  | nil => simp [writeSteps]
  | cons step steps ih =>
    obtain ⟨op, left, right⟩ := step
    rw [writeSteps, ih, write_eq_append_render, List.map_cons, String.join_cons, closing]
    simp only [String.append_assoc]

theorem render_eq_parenthesized (e : Expr) : e.render = e.parenthesized := by
  induction e with
  | atom value => exact render_atom value
  | operation op left right ihLeft ihRight =>
    rw [render_operation, ihLeft, ihRight, parenthesized, op.spaced_eq]
    simp only [String.append_assoc]

/-- Behind any text, an expression is written as one opening parenthesis for each operation on its
left spine, the leaf that the spine ends in, and what closes the operations, the innermost first. This
is its text by recursion. -/
theorem write_parenthesized (out : String) (e : Expr) :
    write out e = out ++ openings e.spine.length ++ e.leftmost.text ++
        String.join (e.spine.map fun step => step.op.spaced ++ step.right.render ++ ")") ∧
      write out e = out ++ e.parenthesized := by
  constructor
  · rw [write, writeSteps_eq_append_join]
    rfl
  · rw [write_eq_append_render, render_eq_parenthesized]

end Expr

end SymbolicCalculus
