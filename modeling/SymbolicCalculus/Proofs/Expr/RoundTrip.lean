import SymbolicCalculus.Expr.Render
import SymbolicCalculus.Proofs.Expr.Relocation
import SymbolicCalculus.Proofs.Syntax.Writing

/-!
Rendered expressions read back. The text of an expression is written for a tree that spells it, and
is a primary.
-/

set_option autoImplicit false

namespace SymbolicCalculus

namespace Phrase

/-- Two primaries joined inside parentheses make a primary. -/
theorem Writes.operation {text more : String} {lhs rhs : Tree} (left : primary.Writes text lhs)
    (right : primary.Writes more rhs) (op : Operator) :
    primary.Writes ("(" ++ text ++ op.spaced ++ more ++ ")")
      (.paren (.binary lhs ⟨op, .point 0⟩ rhs (.point 0)) (.point 0)) := by
  have chain : (Phrase.chain op).Writes (text ++ op.spaced ++ more) _ :=
    (left.lift .ofPrimary).snoc (right.lift .toOperand) (.point 0) (.point 0)
  have group := (chain.lift .toExpression).parens (.point 0)
  simpa only [String.append_assoc] using group

end Phrase

namespace Expr

theorem exists_writes_render (e : Expr) :
    ∃ tree : Tree, tree.Spells e ∧ Phrase.primary.Writes e.render tree := by
  induction e with
  | atom value =>
    rw [render_atom]
    cases value with
    | number n =>
      exact ⟨_, .number n (.point 0), .number n.isNumeral_text n.toDouble_ofChars_text n.isFinite _⟩
    | var v => exact ⟨_, .name v (.point 0), .symbol v.matches_name _⟩
  | operation op left right ihLeft ihRight =>
    obtain ⟨lhs, first, text⟩ := ihLeft
    obtain ⟨rhs, second, more⟩ := ihRight
    rw [render_operation]
    exact ⟨_, .paren _ (.binary _ _ first second), text.operation more op⟩

/-- The text of an expression is a sentence, which spells the expression. -/
theorem exists_tree_of_render (e : Expr) :
    ∃ tree, Tree.parse e.render = .ok tree ∧ tree.Spells e := by
  obtain ⟨tree, spells, writes⟩ := e.exists_writes_render
  obtain ⟨again, read, same⟩ := Tree.parse_of_writes (writes.lift .ofPrimary)
  refine ⟨again, read, (@Tree.spells_relocate .origin _ _).mp ?_⟩
  rw [same]
  exact spells.relocate .origin

/-- Every expression is read back from its text. -/
theorem parse_render (e : Expr) : parse e.render = .ok e :=
  parse_eq_ok.mpr e.exists_tree_of_render

end Expr

end SymbolicCalculus
