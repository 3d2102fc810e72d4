import SymbolicCalculus.Proofs.Expr.Reading
import SymbolicCalculus.Proofs.Syntax.Writing

/-!
Displayed trees read back. A tree is displayed with no parentheses but its own, so that a tree built
by hand can be read as another one. What was read from a text cannot: a sum is no factor without
parentheses, and no chain is the right operand of its own operator.
-/

set_option autoImplicit false

namespace SymbolicCalculus

theorem Tree.Spells.writes_literal {value : Literal} {e : Expr} (h : (Tree.literal value).Spells e) :
    Phrase.primary.Writes value.display (.literal value) := by
  cases h with
  | number n span =>
    have text : n.value.text.toList = n.value.shortest.positional := by
      rw [n.text_value, String.toList_ofList]
    have reads : (Decimal.ofChars n.value.text.toList).toDouble = n.value := by
      rw [text]
      exact n.toDouble_ofChars_shortest
    have numeral : IsNumeral n.value.text.toList := by
      rw [text]
      exact Decimal.isNumeral_positional _
    exact .number numeral reads n.isFinite span
  | name v span => exact .symbol v.matches_name span

/-- Whatever phrase a tree was read as, its display is that phrase again. -/
theorem Phrase.Derives.writes_display {phrase : Phrase} {tokens : List Token} {tree : Tree}
    (h : phrase.Derives tokens tree) {e : Expr} (spells : tree.Spells e) :
    phrase.Writes tree.display tree := by
  induction h using growing generalizing e with
  | numeral | name => exact spells.writes_literal
  | group opens closes inside ih =>
    cases spells with
    | paren _ spells => exact (ih spells).parens _
  | single _ ih => exact (ih spells).lift .single
  | snoc left kind right ihLeft ihRight =>
    cases spells with
    | binary _ _ first second => exact (ihLeft first).snoc (ihRight second) _ _

namespace Tree

/-- Places are not displayed. -/
theorem display_relocate (r : Relocation) (tree : Tree) :
    (tree.relocate r).display = tree.display := by
  induction tree with
  | literal value => cases value <;> rfl
  | paren inner span ih => simp only [relocate, display, ih]
  | binary lhs connective rhs span ihLhs ihRhs =>
    simp only [relocate, display, ihLhs, ihRhs, Connective.relocate]

/-- The display of a tree that was read is read as the same tree at other places, and displayed as
before. -/
theorem parse_display {text : String} {tree : Tree} (read : parse text = .ok tree) :
    ∃ again, parse tree.display = .ok again ∧ again.relocate .origin = tree.relocate .origin ∧
      again.display = tree.display := by
  obtain ⟨e, spells⟩ := Expr.exists_spells_of_parse read
  obtain ⟨again, read, same⟩ :=
    parse_of_writes ((parse_eq_ok.mp read).1.writes_display spells)
  refine ⟨again, read, same, ?_⟩
  rw [← display_relocate .origin, same, display_relocate]

/-- Numerals are written anew and blanks are set, and the parentheses stay. -/
theorem parse_display_product :
    let text := "007 *( x+2.50)"
    let sum : Tree := .binary (.literal (.symbol "x" ⟨7, 8⟩)) ⟨.add, ⟨8, 9⟩⟩
      (.literal (.number ⟨0x4004000000000000⟩ ⟨9, 13⟩)) ⟨7, 13⟩
    let tree : Tree := .binary (.literal (.number ⟨0x401c000000000000⟩ ⟨0, 3⟩)) ⟨.mul, ⟨4, 5⟩⟩
      (.paren sum ⟨5, 14⟩) ⟨0, 14⟩
    parse text = .ok tree ∧ tree.display = "7 * (x + 2.5)" ∧
      ∃ again, parse tree.display = .ok again ∧ again.relocate .origin = tree.relocate .origin ∧
        again.display = tree.display := by
  intro text sum tree
  have read : parse text = .ok tree := by decide +kernel
  exact ⟨read, by decide +kernel, parse_display read⟩

/-- A tree built by hand, a product of a bare sum, is read as a sum. -/
example :
    let leaf (name : String) : Tree := .literal (.symbol name (.point 0))
    let joined (op : Operator) (lhs rhs : Tree) : Tree := lhs.join ⟨op, .point 0⟩ rhs
    let tree := joined .mul (joined .add (leaf "a") (leaf "b")) (leaf "c")
    (parse tree.display).toOption.map (relocate .origin) =
      some (joined .add (leaf "a") (joined .mul (leaf "b") (leaf "c"))) := by
  decide +kernel

end Tree

end SymbolicCalculus
