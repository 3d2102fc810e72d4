import SymbolicCalculus.Proofs.Double.Numeral
import SymbolicCalculus.Proofs.Syntax.Relocation
import SymbolicCalculus.Proofs.Token.Joining

/-!
Texts written for trees. Texts are put together just as the trees that they spell, except that a tree
must be a phrase of its place: nothing here puts parentheses where a tree has none.
-/

set_option autoImplicit false

namespace SymbolicCalculus

/-- Without its places, a tree is the same wherever it is. -/
@[simp] theorem Tree.relocate_origin_relocate (r : Relocation) (tree : Tree) :
    (tree.relocate r).relocate .origin = tree.relocate .origin := by
  induction tree with
  | literal value => cases value <;> rfl
  | paren inner span ih => simp only [relocate, ih]; rfl
  | binary lhs connective rhs span ihLhs ihRhs => simp only [relocate, ihLhs, ihRhs]; rfl

namespace Phrase

/-- All tokens of the text fit, and they spell the tree as the phrase, at whatever places. -/
structure Writes (phrase : Phrase) (text : String) (tree : Tree) : Prop where
  fits : ∀ token ∈ Token.ofText text, token.Fits
  spells : ∃ again, phrase.Derives (Token.ofText text) again ∧
    again.relocate .origin = tree.relocate .origin

namespace Writes

variable {op : Operator} {text more : String} {tree rhs : Tree}

theorem number {x : Double} (numeral : IsNumeral text.toList)
    (reads : (Decimal.ofChars text.toList).toDouble = x) (finite : x.isFinite = true) (span : Span) :
    primary.Writes text (.literal (.number x span)) := by
  obtain ⟨kind, isNumeral, follows⟩ := numeral
  have plain : kind.isWhitespace = false := by
    cases kind <;> simp_all [Token.Kind.isNumeral, Token.Kind.isWhitespace]
  have tokens := Token.ofText_of_matches follows plain
  constructor
  · rw [tokens]
    rintro token member -
    rw [List.eq_of_mem_singleton member, Token.value, reads]
    exact finite
  · rw [tokens]
    refine ⟨_, .numeral isNumeral, ?_⟩
    rw [Token.value, reads]
    rfl

theorem symbol {name : String} (letters : Token.Kind.name.Matches name.toList) (span : Span) :
    primary.Writes name (.literal (.symbol name span)) := by
  have tokens := Token.ofText_of_matches letters rfl
  constructor
  · rw [tokens]
    intro token member
    rw [List.eq_of_mem_singleton member]
    exact Token.fits_of_plain rfl
  · rw [tokens]
    exact ⟨_, .name rfl, rfl⟩

theorem lift {phrase wider : Phrase}
    (up : ∀ {tokens : List Token} {tree : Tree}, phrase.Derives tokens tree → wider.Derives tokens tree)
    (h : phrase.Writes text tree) : wider.Writes text tree := by
  obtain ⟨again, derives, same⟩ := h.spells
  exact ⟨h.fits, again, up derives, same⟩

theorem parens (h : expression.Writes text tree) (span : Span) :
    primary.Writes ("(" ++ text ++ ")") (.paren tree span) := by
  obtain ⟨again, derives, same⟩ := h.spells
  obtain ⟨opening, closing, opens, closes, tokens⟩ := Token.exists_ofText_parens text
  constructor
  · rw [tokens]
    simp only [List.cons_append, List.forall_mem_cons, List.forall_mem_append, List.forall_mem_map]
    exact ⟨Token.fits_of_plain (by rw [opens]; rfl), h.fits,
      Token.fits_of_plain (by rw [closes]; rfl), by simp⟩
  · rw [tokens]
    refine ⟨_, .group opens closes (derives.relocate (.forward 1)), ?_⟩
    rw [Tree.relocate, Tree.relocate_origin_relocate, same]
    rfl

/-- An operand behind a chain. The chain itself stands to the left of the operator, and a chain of
the same operator is no operand. -/
theorem snoc (h : (chain op).Writes text tree) (next : (operand op).Writes more rhs)
    (place span : Span) :
    (chain op).Writes (text ++ op.spaced ++ more) (.binary tree ⟨op, place⟩ rhs span) := by
  obtain ⟨again, derives, same⟩ := h.spells
  obtain ⟨again', derives', same'⟩ := next.spells
  obtain ⟨sign, distance, kind, tokens⟩ := Token.exists_ofText_spaced op text more
  constructor
  · rw [tokens]
    simp only [List.forall_mem_append, List.forall_mem_cons, List.forall_mem_map]
    exact ⟨h.fits, Token.fits_of_sign kind, next.fits⟩
  · rw [tokens]
    refine ⟨_, derives.snoc kind (derives'.relocate (.forward distance)), ?_⟩
    rw [Tree.join, Tree.relocate, Tree.relocate_origin_relocate, same, same']
    rfl

end Writes

end Phrase

/-- A text written for a tree is read, as this tree at other places. -/
theorem Tree.parse_of_writes {text : String} {tree : Tree} (h : Phrase.expression.Writes text tree) :
    ∃ again, parse text = .ok again ∧ again.relocate .origin = tree.relocate .origin := by
  obtain ⟨again, derives, same⟩ := h.spells
  exact ⟨again, parse_eq_ok.mpr ⟨derives, h.fits⟩, same⟩

end SymbolicCalculus
