import Mathlib.Data.List.Induction
import Mathlib.Tactic.Ring
import SymbolicCalculus.Proofs.Expr.Occurrence

/-!
The sizes of derivatives. The product rule writes both operands out once more, so an operand counts
again for every product that it is inside of. In the number of operations this is quadratic at most,
and chains of products are as bad as it gets.
-/

set_option autoImplicit false

namespace SymbolicCalculus

namespace Expr

/-! ## Nodes by their kinds -/

/-- The number of operations. -/
def operations (e : Expr) : Nat := e.postOrder.countP isOperation

/-- All products in an expression, itself included. -/
def products (e : Expr) : List Expr := e.postOrder.filter isProduct

@[simp] theorem operations_atom (value : Atom) : (atom value).operations = 0 := by
  simp [operations, postOrder_eq, nodes, isOperation]

@[simp] theorem operations_operation (op : Operator) (left right : Expr) :
    (operation op left right).operations = left.operations + right.operations + 1 := by
  simp [operations, postOrder_eq, nodes, isOperation, Nat.add_assoc]

@[simp] theorem products_atom (value : Atom) : (atom value).products = [] := by
  simp [products, postOrder_eq, nodes, isProduct]

@[simp] theorem products_operation (op : Operator) (left right : Expr) :
    (operation op left right).products =
      left.products ++ right.products ++ if op = .mul then [operation op left right] else [] := by
  cases op <;> simp [products, postOrder_eq, nodes]

/-- Operations have two operands, so there is one more leaf than there are operations. -/
theorem size_eq (e : Expr) : e.size = 2 * e.operations + 1 := by
  induction e with
  | atom value => rw [operations_atom, size]
  | operation op left right ihLeft ihRight =>
    rw [size, operations_operation, ihLeft, ihRight]
    omega

/-! ## Sizes of derivatives -/

/-- A product costs both operands, and two operations more than a sum. -/
theorem size_derivativeRule (f df g dg : Expr) (op : Operator) :
    (derivativeRule f df g dg op).size =
      df.size + dg.size + 1 + if op = .mul then f.size + g.size + 2 else 0 := by
  cases op with
  | add => rfl
  | mul =>
    simp only [derivativeRule, add, mul, size, if_true]
    omega

theorem size_derivative_atom (name : String) (value : Atom) :
    (derivative name (atom value)).size = 1 := by
  rw [derivative_atom]
  rfl

theorem size_derivative (name : String) (e : Expr) :
    (derivative name e).size =
      e.size + (e.products.map fun product => product.size + 1).sum := by
  induction e with
  | atom value =>
    rw [size_derivative_atom, products_atom, size, List.map_nil, List.sum_nil, Nat.add_zero]
  | operation op left right ihLeft ihRight =>
    rw [derivative_operation, size_derivativeRule, ihLeft, ihRight, products_operation, size]
    cases op with
    | add =>
      simp only [reduceCtorEq, if_false, List.append_nil, List.map_append, List.sum_append]
      omega
    | mul =>
      simp only [if_true, List.map_append, List.sum_append, List.map_cons, List.map_nil,
        List.sum_singleton, size]
      omega

/-- However the operations are split between two operands, no tree is worse than a chain. -/
theorem size_derivative_le (name : String) (e : Expr) :
    (derivative name e).size ≤ e.operations * e.operations + 5 * e.operations + 1 := by
  induction e with
  | atom value => rw [size_derivative_atom, operations_atom]
  | operation op left right ihLeft ihRight =>
    have sizeLeft := left.size_eq
    have sizeRight := right.size_eq
    have cost : (derivative name (operation op left right)).size ≤
        (derivative name left).size + (derivative name right).size + 1 +
          (left.size + right.size + 2) := by
      rw [derivative_operation, size_derivativeRule]
      split <;> omega
    have square : (left.operations + right.operations + 1) * (left.operations + right.operations + 1) =
        left.operations * left.operations + right.operations * right.operations +
          2 * (left.operations * right.operations) + 2 * left.operations +
            2 * right.operations + 1 := by ring
    rw [operations_operation, square]
    omega

/-- Leaves multiplied one after another. -/
def productChain (first : Atom) (rest : List Atom) : Expr :=
  rest.foldl (fun chain leaf => mul chain (atom leaf)) (atom first)

theorem productChain_concat (first : Atom) (rest : List Atom) (last : Atom) :
    productChain first (rest ++ [last]) = mul (productChain first rest) (atom last) := by
  rw [productChain, List.foldl_append]
  rfl

theorem operations_productChain (first : Atom) (rest : List Atom) :
    (productChain first rest).operations = rest.length := by
  induction rest using List.reverseRecOn with
  | nil => exact operations_atom first
  | append_singleton rest last ih =>
    rw [productChain_concat, mul, operations_operation, operations_atom, ih, List.length_append]
    rfl

theorem size_derivative_productChain (name : String) (first : Atom) (rest : List Atom) :
    (derivative name (productChain first rest)).size =
      rest.length * rest.length + 5 * rest.length + 1 := by
  induction rest using List.reverseRecOn with
  | nil => exact size_derivative_atom name first
  | append_singleton rest last ih =>
    have sizeChain := size_eq (productChain first rest)
    rw [operations_productChain] at sizeChain
    rw [productChain_concat, mul, derivative_operation, size_derivativeRule, ih, sizeChain,
      size_derivative_atom, size, List.length_append, List.length_singleton, if_pos rfl]
    ring

/-- Differentiating adds the size of every product and one more. With `k` operations there are at
most `k * k + 5 * k + 1` nodes afterwards, as many as chains of products come to, so no multiple of
the size before is enough. -/
theorem size_derivative_quadratic (name : String) :
    (∀ e : Expr, (derivative name e).size =
      e.size + (e.products.map fun product => product.size + 1).sum) ∧
      (∀ e : Expr,
        (derivative name e).size ≤ e.operations * e.operations + 5 * e.operations + 1) ∧
      (∀ (first : Atom) (rest : List Atom), (productChain first rest).operations = rest.length ∧
        (derivative name (productChain first rest)).size =
          rest.length * rest.length + 5 * rest.length + 1) ∧
      ∀ factor, ∃ e : Expr, factor * e.size < (derivative name e).size := by
  refine ⟨size_derivative name, size_derivative_le name, ?_, ?_⟩
  · intro first rest
    exact ⟨operations_productChain first rest, size_derivative_productChain name first rest⟩
  · intro factor
    let leaf : Atom := .number .one
    let rest := List.replicate (2 * factor) leaf
    have length : rest.length = 2 * factor := List.length_replicate
    refine ⟨productChain leaf rest, ?_⟩
    rw [size_derivative_productChain, size_eq, operations_productChain, length]
    have expand : factor * (2 * (2 * factor) + 1) + 9 * factor + 1 =
        2 * factor * (2 * factor) + 5 * (2 * factor) + 1 := by ring
    omega

end Expr

end SymbolicCalculus
