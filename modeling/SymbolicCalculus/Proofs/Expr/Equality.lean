import Mathlib.Data.List.Forall2
import SymbolicCalculus.Proofs.Expr.PostOrder

/-!
What comparing two walks decides. Put together again on a stack, the nodes of a walk give back the
expression, operands and all. So walks that agree node by node come from the same tree.
-/

set_option autoImplicit false

namespace SymbolicCalculus

theorem Double.sameValue_iff_of_bits_lt {x y : Double} (left : x.bits.toNat < infiniteBits)
    (right : y.bits.toNat < infiniteBits) : x.sameValue y = true ↔ x = y := by
  have small : infiniteBits < signBit := by decide
  have left' := magnitudeBits_eq_of_lt (Nat.lt_trans left small)
  have right' := magnitudeBits_eq_of_lt (Nat.lt_trans right small)
  have number (z : Double) (h : z.magnitudeBits < infiniteBits) : z.isNaN = false :=
    isNaN_eq_false_of_isFinite (isFinite_iff.mpr h)
  unfold sameValue
  rw [number x (by omega), number y (by omega)]
  obtain ⟨x⟩ := x
  obtain ⟨y⟩ := y
  simp only [Bool.not_false, Bool.true_and, Bool.or_eq_true, beq_iff_eq, Bool.and_eq_true,
    isZero_iff, mk.injEq]
  constructor
  · rintro (same | ⟨zero, zero'⟩)
    · exact same
    · -- Without a sign there is only one zero.
      rw [left'] at zero
      rw [right'] at zero'
      exact UInt64.toNat_inj.mp (zero.trans zero'.symm)
  · exact Or.inl

theorem Atom.same_iff {value value' : Atom} : value.same value' = true ↔ value = value' := by
  cases value with
  | number n =>
    cases value' with
    | number n' =>
      obtain ⟨x, left⟩ := n
      obtain ⟨y, right⟩ := n'
      simp [same, Double.sameValue_iff_of_bits_lt left right]
    | var v' => simp [same]
  | var v =>
    cases value' with
    | number n' => simp [same]
    | var v' =>
      obtain ⟨name, _⟩ := v
      obtain ⟨name', _⟩ := v'
      simp [same]

namespace Expr

/-- The same tree: the same kind of node at the root, and there numbers of equal value, variables of
one name, or one operator with operands that are the same in turn. -/
def Alike : Expr → Expr → Prop
  | atom (.number n), atom (.number n') => n.value.sameValue n'.value = true
  | atom (.var v), atom (.var v') => v.name = v'.name
  | operation op left right, operation op' left' right' =>
    op = op' ∧ Alike left left' ∧ Alike right right'
  | _, _ => False

theorem alike_atom_iff {value value' : Atom} :
    Alike (atom value) (atom value') ↔ value.same value' = true := by
  cases value <;> cases value' <;> simp [Alike, Atom.same]

theorem alike_iff {e e' : Expr} : Alike e e' ↔ e = e' := by
  induction e generalizing e' with
  | atom value =>
    cases e' with
    | atom value' => rw [alike_atom_iff, Atom.same_iff, atom.injEq]
    | operation op' left' right' => cases value <;> simp [Alike]
  | operation op left right ihLeft ihRight =>
    cases e' with
    | atom value' => cases value' <;> simp [Alike]
    | operation op' left' right' => simp [Alike, ihLeft, ihRight]

/-! ## The nodes of a walk -/

/-- All nodes in the order of a walk. -/
def nodes : Expr → List Expr
  | atom value => [atom value]
  | operation op left right => left.nodes ++ right.nodes ++ [operation op left right]

theorem map_expr_sites (e : Expr) (place : Place) : (e.sites place).map Site.expr = e.nodes := by
  induction e generalizing place with
  | atom value => rfl
  | operation op left right ihLeft ihRight => simp [sites, nodes, ihLeft, ihRight]

theorem postOrder_eq (e : Expr) : e.postOrder = e.nodes := by
  rw [postOrder, (Walk.visits_all e).collect_eq rfl, map_expr_sites]

/-- Two walks agree if they have equally many nodes and the nodes agree one by one. -/
theorem sameWalk_iff (first second : Walk) :
    sameWalk first second = true ↔
      List.Forall₂ (fun a b => sameNode a b = true) (first.collect []) (second.collect []) := by
  rw [sameWalk]
  split
  · rename_i ended ended'
    simp [Walk.collect_of_end ended, Walk.collect_of_end ended']
  · rename_i a first' b second' found found'
    rw [Walk.collect_of_next found, Walk.collect_of_next found', List.forall₂_cons,
      ← sameWalk_iff first' second']
    split
    · rename_i node
      simp [node]
    · rename_i node
      simp [node]
  · rename_i unequal unequal'
    -- One of the two has ended and the other has not.
    rcases found : first.next with ⟨_ | site, rest⟩
    · rcases found' : second.next with ⟨_ | site', rest'⟩
      · exact absurd found' (unequal _ _ found)
      · simp [Walk.collect_of_end found, Walk.collect_of_next found']
    · rcases found' : second.next with ⟨_ | site', rest'⟩
      · simp [Walk.collect_of_next found, Walk.collect_of_end found']
      · exact absurd found' (unequal' _ _ _ _ found)
termination_by first.pending
decreasing_by have := Walk.pending_next ‹first.next = _›; omega

/-! ## Putting an expression together -/

/-- Puts a leaf on a stack of expressions, or joins the two on top by the operator of a node. -/
def rebuild (stack : List Expr) : Expr → List Expr
  | atom value => atom value :: stack
  | operation op _ _ =>
    match stack with
    | right :: left :: stack => operation op left right :: stack
    | stack => stack

/-- The nodes of an expression put it on the stack, whatever lies below. -/
theorem foldl_rebuild_nodes (e : Expr) (stack : List Expr) :
    e.nodes.foldl rebuild stack = e :: stack := by
  induction e generalizing stack with
  | atom value => rfl
  | operation op left right ihLeft ihRight => simp [nodes, ihLeft, ihRight, rebuild]

/-- Operands are taken from the stack and not from the node, so nodes that agree do the same. -/
theorem rebuild_eq_of_sameNode {a b : Expr} (h : a.sameNode b = true) (stack : List Expr) :
    rebuild stack a = rebuild stack b := by
  cases a with
  | atom value =>
    cases b with
    | atom value' =>
      have same : value = value' := Atom.same_iff.mp h
      rw [same]
    | operation op' left' right' => cases h
  | operation op left right =>
    cases b with
    | atom value' => cases h
    | operation op' left' right' =>
      have same : op = op' := beq_iff_eq.mp h
      rw [same]
      rfl

theorem foldl_rebuild_eq {first second : List Expr}
    (h : List.Forall₂ (fun a b => sameNode a b = true) first second) (stack : List Expr) :
    first.foldl rebuild stack = second.foldl rebuild stack := by
  induction h generalizing stack with
  | nil => rfl
  | cons node _ ih => rw [List.foldl_cons, List.foldl_cons, rebuild_eq_of_sameNode node, ih]

theorem sameNode_self (e : Expr) : e.sameNode e = true := by
  cases e with
  | atom value => exact Atom.same_iff.mpr rfl
  | operation op left right => exact beq_iff_eq.mpr rfl

/-- The nodes that a walk visits determine the tree. -/
theorem forall₂_nodes_iff {e e' : Expr} :
    List.Forall₂ (fun a b => sameNode a b = true) e.nodes e'.nodes ↔ e = e' := by
  constructor
  · intro h
    have rebuilt := foldl_rebuild_eq h []
    rw [foldl_rebuild_nodes, foldl_rebuild_nodes] at rebuilt
    exact List.head_eq_of_cons_eq rebuilt
  · rintro rfl
    exact List.forall₂_same.mpr fun node _ => node.sameNode_self

/-- Comparing the walks of two expressions tells whether they are the same tree, of the same shape
and with the same leaves and operators. -/
theorem same_eq_true_iff (e e' : Expr) :
    (same e e' = true ↔ Alike e e') ∧ (Alike e e' ↔ e = e') := by
  refine ⟨?_, alike_iff⟩
  have walks := sameWalk_iff e.walk e'.walk
  change same e e' = true ↔
    List.Forall₂ (fun a b => sameNode a b = true) e.postOrder e'.postOrder at walks
  rw [walks, postOrder_eq, postOrder_eq, forall₂_nodes_iff, alike_iff]

/-- `1 + (0 + 1)` and `(1 + 0) + 1` have the same leaves and operators in the same order. -/
example :
    same (add (number .one) (add (number .zero) (number .one)))
      (add (add (number .one) (number .zero)) (number .one)) = false := by
  decide +kernel

end Expr

end SymbolicCalculus
