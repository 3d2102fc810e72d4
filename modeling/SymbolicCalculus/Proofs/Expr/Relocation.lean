import SymbolicCalculus.Proofs.Expr.Reading
import SymbolicCalculus.Proofs.Syntax.Relocation

/-!
Expressions do not depend on places. From the same tokens at other places the same expression is
read, or else the same fault is found.
-/

set_option autoImplicit false

namespace SymbolicCalculus

theorem Tree.Spells.relocate (r : Relocation) {tree : Tree} {e : Expr} (h : tree.Spells e) :
    (tree.relocate r).Spells e := by
  induction h with
  | number n span => exact .number n (span.relocate r)
  | name v span => exact .name v (span.relocate r)
  | paren span _ ih => exact .paren (span.relocate r) ih
  | binary connective span _ _ ihFirst ihSecond =>
    exact .binary (connective.relocate r) (span.relocate r) ihFirst ihSecond

theorem Tree.spells_relocate {r : Relocation} {tree : Tree} {e : Expr} :
    (tree.relocate r).Spells e ↔ tree.Spells e := by
  refine ⟨?_, Spells.relocate r⟩
  intro h
  induction tree generalizing e with
  | literal value =>
    cases value with
    | number value span =>
      cases h with
      | number n => exact .number n span
    | symbol name span =>
      cases h with
      | name v => exact .name v span
  | paren inner span ih =>
    cases h with
    | paren _ inside => exact .paren span (ih inside)
  | binary lhs connective rhs span ihLhs ihRhs =>
    cases h with
    | binary _ _ first second => exact .binary connective span (ihLhs first) (ihRhs second)

namespace Expr

/-- Both texts give the same expression, or the same fault. -/
theorem parse_relocate {text text' : String} {r : Relocation}
    (same : Token.ofText text' = (Token.ofText text).map (Token.relocate r)) :
    (∃ e, parse text = .ok e ∧ parse text' = .ok e) ∨
      ∃ error error', parse text = .error error ∧ parse text' = .error error' ∧
        error.fault = error'.fault := by
  cases read : parse text with
  | ok e =>
    obtain ⟨tree, read, spells⟩ := parse_eq_ok.mp read
    exact .inl ⟨e, rfl, parse_eq_ok.mpr ⟨_, Tree.parse_relocate same read, spells.relocate r⟩⟩
  | error error =>
    obtain ⟨front, next, _, rfl, refused⟩ :=
      Tree.parse_error_relocate same (parse_eq_error.mp read)
    exact .inr ⟨_, _, rfl, parse_eq_error.mpr refused, (fault_diagnose_relocate ..).symm⟩

end Expr

end SymbolicCalculus
