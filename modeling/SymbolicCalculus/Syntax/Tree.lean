import SymbolicCalculus.Double.Shortest
import SymbolicCalculus.Operator
import SymbolicCalculus.Text.Span

/-!
Syntax trees: expressions as they were written, with their parentheses and with the place of every
part. A tree that was built by hand may hold any double and any name.
-/

set_option autoImplicit false

namespace SymbolicCalculus

inductive Literal where
  | number (value : Double) (span : Span)
  | symbol (name : String) (span : Span)
  deriving DecidableEq, Repr

namespace Literal

def span : Literal → Span
  | number _ span => span
  | symbol _ span => span

def display : Literal → String
  | number value _ => value.text
  | symbol name _ => name

/-- Equality with numbers compared as values. -/
def same : Literal → Literal → Bool
  | number value span, number value' span' => value.sameValue value' && span == span'
  | symbol name span, symbol name' span' => name == name' && span == span'
  | _, _ => false

end Literal

structure Connective where
  operator : Operator
  span : Span
  deriving DecidableEq, Repr

inductive Tree where
  | literal (value : Literal)
  | paren (inner : Tree) (span : Span)
  | binary (lhs : Tree) (connective : Connective) (rhs : Tree) (span : Span)
  deriving DecidableEq, Repr

namespace Tree

def span : Tree → Span
  | literal value => value.span
  | paren _ span => span
  | binary _ _ _ span => span

/-- Two operands joined, over the text from the first to the second. -/
def join (lhs : Tree) (connective : Connective) (rhs : Tree) : Tree :=
  binary lhs connective rhs (lhs.span.through rhs.span)

/-- What is inside all the parentheses around a tree. -/
def innermost : Tree → Tree
  | paren inner _ => inner.innermost
  | tree => tree

/-- The text of a tree, with one blank on either side of each operator. -/
def display : Tree → String
  | literal value => value.display
  | paren inner _ => "(" ++ inner.display ++ ")"
  | binary lhs connective rhs _ => lhs.display ++ connective.operator.spaced ++ rhs.display

/-- Equality of all parts and places, with numbers compared as values. -/
def same : Tree → Tree → Bool
  | literal value, literal value' => value.same value'
  | paren inner span, paren inner' span' => inner.same inner' && span == span'
  | binary lhs connective rhs span, binary lhs' connective' rhs' span' =>
    lhs.same lhs' && connective == connective' && rhs.same rhs' && span == span'
  | _, _ => false

def size : Tree → Nat
  | literal _ => 1
  | paren inner _ => inner.size + 1
  | binary lhs _ rhs _ => lhs.size + rhs.size + 1

theorem size_pos (tree : Tree) : 0 < tree.size := by
  cases tree <;> simp [size]

end Tree

end SymbolicCalculus
