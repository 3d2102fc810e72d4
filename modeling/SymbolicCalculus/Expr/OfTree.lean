import SymbolicCalculus.Expr.Basic
import SymbolicCalculus.Syntax.Parser

/-! Expressions from syntax trees: places and parentheses are dropped, and literals are checked. -/

set_option autoImplicit false

namespace SymbolicCalculus

def Literal.toAtom : Literal → Except Refusal Atom
  | number value _ => (Number.ofDouble value).map .number
  | symbol name _ => (Variable.ofName name).map .var

namespace Tree

/-- An operator on the left spine of a tree with its right operand. -/
abbrev Step : Type := Operator × Tree

def stepsSize : List Step → Nat
  | [] => 0
  | step :: steps => step.2.size + 1 + stepsSize steps

@[simp] theorem stepsSize_nil : stepsSize [] = 0 := rfl

@[simp] theorem stepsSize_cons (step : Step) (steps : List Step) :
    stepsSize (step :: steps) = step.2.size + 1 + stepsSize steps := rfl

/-- Walks down the left spine through all parentheses, collecting its steps. -/
def unwind (steps : List Step) : Tree → Literal × List Step
  | literal value => (value, steps)
  | paren inner _ => unwind steps inner
  | binary lhs connective rhs _ => unwind ((connective.operator, rhs) :: steps) lhs

def leftmost (tree : Tree) : Literal := (tree.unwind []).1

def spine (tree : Tree) : List Step := (tree.unwind []).2

theorem unwind_append (tree : Tree) (steps more : List Step) :
    tree.unwind (steps ++ more) = ((tree.unwind steps).1, (tree.unwind steps).2 ++ more) := by
  induction tree generalizing steps with
  | literal value => rfl
  | paren inner span ih => exact ih steps
  | binary lhs connective rhs span ih _ => exact ih ((connective.operator, rhs) :: steps)

@[simp] theorem leftmost_binary (lhs : Tree) (connective : Connective) (rhs : Tree) (span : Span) :
    (binary lhs connective rhs span).leftmost = lhs.leftmost := by
  simpa [leftmost, unwind] using
    congrArg Prod.fst (unwind_append lhs [] [(connective.operator, rhs)])

@[simp] theorem spine_binary (lhs : Tree) (connective : Connective) (rhs : Tree) (span : Span) :
    (binary lhs connective rhs span).spine = lhs.spine ++ [(connective.operator, rhs)] := by
  simpa [spine, unwind] using
    congrArg Prod.snd (unwind_append lhs [] [(connective.operator, rhs)])

theorem stepsSize_unwind_lt (tree : Tree) (steps : List Step) :
    stepsSize (tree.unwind steps).2 < tree.size + stepsSize steps := by
  induction tree generalizing steps with
  | literal value => simp [unwind, size]
  | paren inner span ih =>
    have := ih steps
    simp only [unwind, size]
    omega
  | binary lhs connective rhs span ih _ =>
    have := ih ((connective.operator, rhs) :: steps)
    simp only [unwind, size, stepsSize_cons] at *
    omega

theorem stepsSize_spine_lt (tree : Tree) : stepsSize tree.spine < tree.size :=
  stepsSize_unwind_lt tree []

end Tree

namespace Expr

mutual

/-- The expression that a tree stands for. The first literal that no expression can hold, from left
to right, is the error. -/
def ofTree (tree : Tree) : Except SyntaxError Expr :=
  match tree.leftmost.toAtom with
  | .error reason => .error ⟨[tree.leftmost.span], .invalidLiteral reason⟩
  | .ok leftmost => ofTreeSteps (atom leftmost) tree.spine
termination_by 2 * tree.size
decreasing_by have := tree.stepsSize_spine_lt; omega

def ofTreeSteps (left : Expr) : List Tree.Step → Except SyntaxError Expr
  | [] => .ok left
  | (op, rhs) :: steps =>
    match ofTree rhs with
    | .error error => .error error
    | .ok right => ofTreeSteps (operation op left right) steps
termination_by steps => 2 * Tree.stepsSize steps + 1
decreasing_by all_goals simp only [Tree.stepsSize_cons]; omega

end

theorem ofTreeSteps_append (left : Expr) (steps more : List Tree.Step) :
    ofTreeSteps left (steps ++ more) =
      (ofTreeSteps left steps).bind fun left => ofTreeSteps left more := by
  induction steps generalizing left with
  | nil => simp [ofTreeSteps, Except.bind]
  | cons step steps ih =>
    obtain ⟨op, rhs⟩ := step
    simp only [List.cons_append, ofTreeSteps]
    cases ofTree rhs with
    | error error => rfl
    | ok right => exact ih _

theorem ofTree_literal (value : Literal) :
    ofTree (.literal value) =
      match value.toAtom with
      | .error reason => .error ⟨[value.span], .invalidLiteral reason⟩
      | .ok leaf => .ok (atom leaf) := by
  rw [ofTree]
  simp only [Tree.leftmost, Tree.spine, Tree.unwind, ofTreeSteps]

theorem ofTree_paren (inner : Tree) (span : Span) : ofTree (.paren inner span) = ofTree inner := by
  rw [ofTree, ofTree]
  rfl

theorem ofTree_binary (lhs : Tree) (connective : Connective) (rhs : Tree) (span : Span) :
    ofTree (.binary lhs connective rhs span) =
      (ofTree lhs).bind fun left =>
        (ofTree rhs).bind fun right => .ok (operation connective.operator left right) := by
  rw [ofTree, Tree.leftmost_binary, Tree.spine_binary, ofTree.eq_1 lhs]
  cases lhs.leftmost.toAtom with
  | error reason => rfl
  | ok leaf =>
    simp only [ofTreeSteps_append]
    congr 1
    funext left
    simp only [ofTreeSteps]
    cases ofTree rhs <;> rfl

def parse (text : String) : Except SyntaxError Expr :=
  match Tree.parse text with
  | .error error => .error error
  | .ok tree => ofTree tree

end Expr

end SymbolicCalculus
