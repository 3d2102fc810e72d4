import SymbolicCalculus.Proofs.Double.Numeral
import SymbolicCalculus.Proofs.Expr.Equality

/-!
Fingerprints and equality. Equality compares nodes, and numbers by value, while a fingerprint runs
all nodes together, and numbers by their bits. They agree on every two expressions: each node puts in
equally many values, and numbers of one value have the same bits.
-/

set_option autoImplicit false

namespace SymbolicCalculus

namespace Expr

theorem length_marks (node : Expr) : node.marks.length = 2 := by
  match node with
  | atom (.number _) => rfl
  | atom (.var _) => rfl
  | operation _ _ _ => rfl

theorem operatorIndex_inj {op op' : Operator} : operatorIndex op = operatorIndex op' ↔ op = op' := by
  cases op <;> cases op' <;> simp [operatorIndex]

theorem marks_atom_inj {value value' : Atom} (h : (atom value).marks = (atom value').marks) :
    value = value' := by
  cases value with
  | number n =>
    cases value' with
    | number n' =>
      obtain ⟨⟨bits⟩, _⟩ := n
      obtain ⟨⟨bits'⟩, _⟩ := n'
      simpa [marks] using h
    | var v' => simp [marks] at h
  | var v =>
    cases value' with
    | number n' => simp [marks] at h
    | var v' =>
      obtain ⟨name, _⟩ := v
      obtain ⟨name', _⟩ := v'
      simpa [marks] using h

/-- Nodes put in the same values exactly if they are the same without their operands. -/
theorem marks_eq_iff {a b : Expr} : a.marks = b.marks ↔ sameNode a b = true := by
  cases a with
  | atom value =>
    cases b with
    | atom value' =>
      rw [sameNode, Atom.same_iff]
      exact ⟨marks_atom_inj, fun same => by rw [same]⟩
    | operation op' left' right' => cases value <;> simp [marks, sameNode]
  | operation op left right =>
    cases b with
    | atom value' => cases value' <;> simp [marks, sameNode]
    | operation op' left' right' =>
      simp [marks, sameNode, operatorIndex_inj]

theorem flatMap_marks_eq_nil {nodes : List Expr} : nodes.flatMap marks = [] ↔ nodes = [] := by
  cases nodes with
  | nil => simp
  | cons node nodes =>
    have two := node.length_marks
    constructor
    · intro h
      have lengths := congrArg List.length h
      simp only [List.flatMap_cons, List.length_append, List.length_nil] at lengths
      omega
    · rintro ⟨⟩

/-- Run together, the values still tell where one node ends and the next begins. -/
theorem flatMap_marks_eq_iff {first second : List Expr} :
    first.flatMap marks = second.flatMap marks ↔
      List.Forall₂ (fun a b => sameNode a b = true) first second := by
  induction first generalizing second with
  | nil => rw [List.flatMap_nil, eq_comm, flatMap_marks_eq_nil, List.forall₂_nil_left_iff]
  | cons a first ih =>
    cases second with
    | nil =>
      rw [List.flatMap_nil, flatMap_marks_eq_nil, List.forall₂_nil_right_iff]
    | cons b second =>
      rw [List.flatMap_cons, List.flatMap_cons, List.forall₂_cons, ← ih, ← marks_eq_iff]
      constructor
      · exact fun h => List.append_inj h (a.length_marks.trans b.length_marks.symm)
      · rintro ⟨here, behind⟩
        rw [here, behind]

/-- Expressions have equal fingerprints exactly if they are equal. A number is neither a NaN, which
would differ from itself, nor a zero with a sign, which would equal the one without. -/
theorem fingerprint_eq_iff (e e' : Expr) :
    (e.fingerprint = e'.fingerprint ↔ same e e' = true) ∧
      ∀ n : Number, n.value.isNaN = false ∧ n.value.isSigned = false := by
  have walks : same e e' = true ↔
      List.Forall₂ (fun a b => sameNode a b = true) e.postOrder e'.postOrder :=
    sameWalk_iff e.walk e'.walk
  refine ⟨flatMap_marks_eq_iff.trans walks.symm, fun n => ⟨?_, n.isSigned_eq_false⟩⟩
  exact Double.isNaN_eq_false_of_isFinite n.isFinite

end Expr

end SymbolicCalculus
