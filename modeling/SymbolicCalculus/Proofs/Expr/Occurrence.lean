import SymbolicCalculus.Expr.Derivative
import SymbolicCalculus.Proofs.Expr.Equality

/-!
Which variables a derivative has: those that stand inside a product, and no others. A sum leaves
only the derivatives of its operands, while a product keeps both operands beside theirs.
-/

set_option autoImplicit false

namespace SymbolicCalculus

namespace Expr

def isProduct : Expr → Bool
  | operation .mul _ _ => true
  | _ => false

@[simp] theorem isProduct_operation (op : Operator) (left right : Expr) :
    (operation op left right).isProduct = (op == .mul) := by
  cases op <;> rfl

/-! ## Variables by their places -/

/-- A variable of the name stands at the place. -/
def VariableAt (e : Expr) (name : String) (place : Place) : Prop :=
  ∃ v, e.at? place = some (atom (.var v)) ∧ v.name = name

/-- On the way down to the place there is a product. -/
def InsideProduct (e : Expr) (place : Place) : Prop :=
  ∃ deeper side above node,
    place = deeper ++ side :: above ∧ e.at? above = some node ∧ node.isProduct = true

/-- Looking through all nodes finds the variables at all places. -/
theorem containsVariable_iff {name : String} {e : Expr} :
    e.containsVariable name = true ↔ ∃ place, e.VariableAt name place := by
  have named (node : Expr) : node.asVariable?.any (·.name == name) = true ↔
      ∃ v, node = atom (.var v) ∧ v.name = name := by
    cases node with
    | atom value => cases value <;> simp [asVariable?]
    | operation => simp [asVariable?]
  rw [containsVariable, postOrder_eq, ← e.map_expr_sites [], List.any_map, List.any_eq_true]
  simp only [Function.comp_apply, named, mem_sites, List.append_nil]
  constructor
  · rintro ⟨site, ⟨place, rfl, found⟩, v, same, isNamed⟩
    exact ⟨site.place, v, by rw [found, same], isNamed⟩
  · rintro ⟨place, v, found, isNamed⟩
    exact ⟨⟨place, atom (.var v)⟩, ⟨place, rfl, found⟩, v, rfl, isNamed⟩

theorem containsVariable_of_insideProduct {name : String} {e : Expr}
    (h : ∃ place, e.VariableAt name place ∧ e.InsideProduct place) :
    e.containsVariable name = true := by
  obtain ⟨place, found, _⟩ := h
  exact containsVariable_iff.mpr ⟨place, found⟩

@[simp] theorem containsVariable_number (name : String) (n : Number) :
    (number n).containsVariable name = false := by
  simp [containsVariable, postOrder_eq, number, nodes, asVariable?]

@[simp] theorem containsVariable_operation (name : String) (op : Operator) (left right : Expr) :
    (operation op left right).containsVariable name =
      (left.containsVariable name || right.containsVariable name) := by
  simp [containsVariable, postOrder_eq, nodes, asVariable?]

/-- The variables of an operation stand in its operands. -/
theorem exists_variableAt_operation {op : Operator} {left right : Expr} {name : String}
    {P : Place → Prop} :
    (∃ place, (operation op left right).VariableAt name place ∧ P place) ↔
      (∃ place, left.VariableAt name place ∧ P (place ++ [.left])) ∨
        ∃ place, right.VariableAt name place ∧ P (place ++ [.right]) := by
  constructor
  · rintro ⟨place, ⟨v, found, isNamed⟩, holds⟩
    rcases List.eq_nil_or_concat place with rfl | ⟨place, side, rfl⟩
    · cases found
    · rw [List.concat_eq_append] at found holds
      cases side with
      | left => exact .inl ⟨place, ⟨v, by rwa [at?_left] at found, isNamed⟩, holds⟩
      | right => exact .inr ⟨place, ⟨v, by rwa [at?_right] at found, isNamed⟩, holds⟩
  · rintro (⟨place, ⟨v, found, isNamed⟩, holds⟩ | ⟨place, ⟨v, found, isNamed⟩, holds⟩)
    · exact ⟨_, ⟨v, (at?_left ..).trans found, isNamed⟩, holds⟩
    · exact ⟨_, ⟨v, (at?_right ..).trans found, isNamed⟩, holds⟩

theorem not_insideProduct_atom (value : Atom) (place : Place) :
    ¬(atom value).InsideProduct place := by
  rintro ⟨_, _, above, node, _, found, product⟩
  rcases List.eq_nil_or_concat above with rfl | ⟨above, side, rfl⟩
  · cases found
    cases product
  · rw [List.concat_eq_append, at?_atom_append] at found
    cases found

/-- An operand is inside the operation, and inside of what the operation is inside of. -/
theorem insideProduct_append_side {root e : Expr} {side : Side} {place : Place}
    (step : root.operand? side = some e) :
    root.InsideProduct (place ++ [side]) ↔ root.isProduct = true ∨ e.InsideProduct place := by
  constructor
  · rintro ⟨deeper, side', above, node, same, found, product⟩
    rcases List.eq_nil_or_concat above with rfl | ⟨above, last, rfl⟩
    · cases found
      exact .inl product
    · rw [List.concat_eq_append] at same found
      have regroup : deeper ++ side' :: (above ++ [last]) = deeper ++ side' :: above ++ [last] := by
        simp
      obtain ⟨rfl, ends⟩ := List.append_inj' (same.trans regroup) rfl
      obtain rfl := List.head_eq_of_cons_eq ends
      rw [at?_append_side step] at found
      exact .inr ⟨deeper, side', above, node, rfl, found, product⟩
  · rintro (product | ⟨deeper, side', above, node, rfl, found, product⟩)
    · exact ⟨place, side, [], root, rfl, rfl, product⟩
    · exact ⟨deeper, side', above ++ [side], node, by simp,
        (at?_append_side step above).trans found, product⟩

/-! ## Variables of derivatives -/

theorem containsVariable_derivative_iff {name v : String} {e : Expr} :
    (derivative name e).containsVariable v = true ↔
      ∃ place, e.VariableAt v place ∧ e.InsideProduct place := by
  induction e with
  | atom value => simp [not_insideProduct_atom]
  | operation op left right ihLeft ihRight =>
    have inLeft (place : Place) :=
      @insideProduct_append_side (operation op left right) left .left place rfl
    have inRight (place : Place) :=
      @insideProduct_append_side (operation op left right) right .right place rfl
    rw [derivative_operation, exists_variableAt_operation]
    simp only [inLeft, inRight]
    cases op with
    | add => simp [derivativeRule, add, ihLeft, ihRight]
    | mul =>
      -- Both operands are kept, and their derivatives have no variables that they do not have.
      have fewerLeft (h : (derivative name left).containsVariable v = true) :=
        containsVariable_of_insideProduct (ihLeft.mp h)
      have fewerRight (h : (derivative name right).containsVariable v = true) :=
        containsVariable_of_insideProduct (ihRight.mp h)
      simp only [derivativeRule, add, mul, containsVariable_operation, isProduct_operation,
        beq_self_eq_true, true_or, and_true, Bool.or_eq_true, ← containsVariable_iff]
      constructor
      · rintro ((h | h) | (h | h))
        · exact .inl (fewerLeft h)
        · exact .inr h
        · exact .inl h
        · exact .inr (fewerRight h)
      · rintro (h | h)
        · exact .inr (.inl h)
        · exact .inl (.inr h)

/-- A derivative has the variables that stand inside a product, whichever variable it is taken by.
So it has none that are new. -/
theorem containsVariable_derivative (name v : String) (e : Expr) :
    ((derivative name e).containsVariable v = true ↔
      ∃ place, e.VariableAt v place ∧ e.InsideProduct place) ∧
      ((derivative name e).containsVariable v = true → e.containsVariable v = true) ∧
      ∀ other, (derivative other e).containsVariable v = (derivative name e).containsVariable v := by
  refine ⟨containsVariable_derivative_iff, ?_, ?_⟩
  · intro kept
    exact containsVariable_of_insideProduct (containsVariable_derivative_iff.mp kept)
  · intro other
    rw [Bool.eq_iff_iff, containsVariable_derivative_iff, containsVariable_derivative_iff]

/-- Of `x + y * 1` only the second variable is left, also in the derivative by the first. -/
example :
    let x : Variable := ⟨"x", by decide⟩
    let y : Variable := ⟨"y", by decide⟩
    let e := add (atom (.var x)) (mul (atom (.var y)) (number .one))
    (derivative "x" e).variableNames = ["y"] := by
  decide +kernel

end Expr

end SymbolicCalculus
