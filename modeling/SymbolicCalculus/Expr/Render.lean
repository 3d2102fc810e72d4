import SymbolicCalculus.Expr.Basic

/-! The text of an expression, with parentheses around every operation. -/

set_option autoImplicit false

namespace SymbolicCalculus

namespace Expr

def openings (count : Nat) : String := String.ofList (List.replicate count '(')

mutual

/-- Writes an expression behind a text: an opening parenthesis for each operation on the left
spine, the leftmost leaf, and then the spine outwards. -/
def write (out : String) (e : Expr) : String :=
  writeSteps (out ++ openings e.spine.length ++ e.leftmost.text) e.spine
termination_by 2 * e.size
decreasing_by have := e.stepsSize_spine_lt; omega

/-- Writes each operator with its right operand, and closes the parenthesis of the operation. -/
def writeSteps (out : String) : List Step → String
  | [] => out
  | ⟨op, _, right⟩ :: steps => writeSteps (write (out ++ op.spaced) right ++ ")") steps
termination_by steps => 2 * stepsSize steps + 1
decreasing_by all_goals simp only [stepsSize_cons]; omega

end

mutual

theorem write_append (a b : String) (e : Expr) : write (a ++ b) e = a ++ write b e := by
  rw [write, write, ← writeSteps_append]
  simp only [String.append_assoc]
termination_by 2 * e.size
decreasing_by have := e.stepsSize_spine_lt; omega

theorem writeSteps_append (a b : String) (steps : List Step) :
    writeSteps (a ++ b) steps = a ++ writeSteps b steps := by
  match steps with
  | [] => simp only [writeSteps]
  | ⟨op, _, right⟩ :: steps =>
    rw [writeSteps, writeSteps, String.append_assoc, write_append, String.append_assoc,
      writeSteps_append]
termination_by 2 * stepsSize steps + 1
decreasing_by all_goals simp only [stepsSize_cons]; omega

end

theorem writeSteps_snoc (out : String) (steps : List Step) (op : Operator) (left right : Expr) :
    writeSteps out (steps ++ [⟨op, left, right⟩]) =
      writeSteps out steps ++ op.spaced ++ write "" right ++ ")" := by
  induction steps generalizing out with
  | nil =>
    have := write_append (out ++ op.spaced) "" right
    simp only [String.append_empty] at this
    simp only [List.nil_append, writeSteps, this]
  | cons step steps ih =>
    obtain ⟨op', left', right'⟩ := step
    simp only [List.cons_append, writeSteps, ih]

def render (e : Expr) : String := write "" e

@[simp] theorem render_atom (value : Atom) : (atom value).render = value.text := by
  simp [render, write, writeSteps, openings]

theorem render_operation (op : Operator) (left right : Expr) :
    (operation op left right).render =
      "(" ++ left.render ++ op.spaced ++ right.render ++ ")" := by
  have openings_succ (n : Nat) : openings (n + 1) = "(" ++ openings n := by
    simp [openings, List.replicate_succ]
  simp only [render, write, spine_operation, leftmost_operation, writeSteps_snoc,
    List.length_append, List.length_singleton, openings_succ, String.empty_append,
    String.append_assoc, writeSteps_append]

end Expr

end SymbolicCalculus
