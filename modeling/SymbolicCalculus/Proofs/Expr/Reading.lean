import SymbolicCalculus.Expr.OfTree
import SymbolicCalculus.Proofs.Double.Numeral
import SymbolicCalculus.Proofs.Syntax.WholeText

/-!
Reading expressions. What a sentence spells is an expression once its parentheses are dropped, so
sentences are read, and nothing else is.
-/

set_option autoImplicit false

namespace SymbolicCalculus

/-- The expression is the tree without places and parentheses. Its leaves hold what those of the
tree do. -/
inductive Tree.Spells : Tree → Expr → Prop where
  | number (n : Number) (span : Span) : Spells (.literal (.number n.value span)) (.number n)
  | name (v : Variable) (span : Span) : Spells (.literal (.symbol v.name span)) (.atom (.var v))
  | paren {inner : Tree} {e : Expr} (span : Span) (inside : Spells inner e) :
      Spells (.paren inner span) e
  | binary {lhs rhs : Tree} {left right : Expr} (connective : Connective) (span : Span)
      (first : Spells lhs left) (second : Spells rhs right) :
      Spells (.binary lhs connective rhs span) (.operation connective.operator left right)

theorem Number.ofDouble_value (n : Number) : Number.ofDouble n.value = .ok n := by
  have unsigned : ¬n.value.isNegative = true := by simp [Double.isNegative, n.isSigned_eq_false]
  unfold Number.ofDouble
  rw [dif_pos n.isFinite, dif_neg unsigned]
  split
  · rename_i isZero
    rw [Double.isZero_iff, Double.magnitudeBits_eq_of_lt n.bits_lt_sign] at isZero
    obtain ⟨⟨bits⟩, _⟩ := n
    obtain rfl : bits = 0 := UInt64.toNat_inj.mp isZero
    rfl
  · rfl

theorem Variable.toList_name_ne_nil (v : Variable) : v.name.toList ≠ [] := by
  intro empty
  have nonempty := v.valid.1
  rw [String.toList_eq_nil_iff.mp empty] at nonempty
  cases nonempty

theorem Variable.matches_name (v : Variable) : Token.Kind.name.Matches v.name.toList := by
  have letters := List.all_eq_true.mp v.valid.2
  obtain ⟨c, more, chars⟩ := List.exists_cons_of_ne_nil v.toList_name_ne_nil
  rw [chars] at letters ⊢
  exact .name letters

theorem Variable.ofName_name (v : Variable) : Variable.ofName v.name = .ok v := by
  have valid : isName v.name = true := by simpa [isName] using v.valid
  unfold ofName
  rw [dif_pos valid]

namespace Expr

theorem ofTree_of_spells {tree : Tree} {e : Expr} (h : tree.Spells e) : ofTree tree = .ok e := by
  induction h with
  | number n span =>
    rw [ofTree_literal]
    simp only [Literal.toAtom, n.ofDouble_value]
    rfl
  | name v span =>
    rw [ofTree_literal]
    simp only [Literal.toAtom, v.ofName_name]
    rfl
  | paren span _ ih => rw [ofTree_paren, ih]
  | binary connective span _ _ ihFirst ihSecond =>
    rw [ofTree_binary, ihFirst, ihSecond]
    rfl

/-- A derived tree spells an expression if its numerals fit and its names are made of letters. -/
theorem exists_spells {phrase : Phrase} {tokens : List Token} {tree : Tree}
    (h : phrase.Derives tokens tree) (fits : ∀ token ∈ tokens, token.Fits)
    (named : ∀ token ∈ tokens, token.kind = .name → Token.Kind.name.Matches token.lexeme.toList) :
    ∃ e, tree.Spells e := by
  induction h using Phrase.Derives.growing with
  | @numeral token kind =>
    have finite : token.value.isFinite = true := fits token List.mem_cons_self kind
    -- A numeral has no sign, so its double has none.
    have most : token.value.bits.toNat ≤ Double.infiniteBits := Double.nearest_toNat_le ..
    have unsigned : token.value.bits.toNat < Double.signBit := Nat.lt_of_le_of_lt most (by decide)
    rw [Double.isFinite_iff, Double.magnitudeBits_eq_of_lt unsigned] at finite
    exact ⟨_, .number ⟨token.value, finite⟩ token.span⟩
  | @name token kind =>
    have letters := named token List.mem_cons_self kind
    have valid : token.lexeme.isEmpty = false ∧ token.lexeme.toList.all Char.isAlpha = true := by
      -- The rule of names is about the characters, and the validity of a name about the text.
      generalize chars : token.lexeme.toList = text at letters
      cases letters with
      | name all =>
        refine ⟨?_, List.all_eq_true.mpr all⟩
        rw [Bool.eq_false_iff]
        intro empty
        rw [String.isEmpty_iff.mp empty] at chars
        simp at chars
    exact ⟨_, .name ⟨token.lexeme, valid⟩ token.span⟩
  | group opens closes inside ih =>
    obtain ⟨e, spells⟩ := ih (fun token member => fits token (by simp [member]))
      fun token member => named token (by simp [member])
    exact ⟨e, .paren _ spells⟩
  | single _ ih => exact ih fits named
  | snoc left kind right ihLeft ihRight =>
    obtain ⟨e, first⟩ := ihLeft (fun token member => fits token (by simp [member]))
      fun token member => named token (by simp [member])
    obtain ⟨f, second⟩ := ihRight (fun token member => fits token (by simp [member]))
      fun token member => named token (by simp [member])
    exact ⟨_, .binary _ _ first second⟩

theorem exists_spells_of_parse {text : String} {tree : Tree} (h : Tree.parse text = .ok tree) :
    ∃ e, tree.Spells e := by
  obtain ⟨derives, fits⟩ := Tree.parse_eq_ok.mp h
  refine exists_spells derives fits ?_
  intro token member kind
  have scanned : token ∈ Token.scan text := (List.mem_filter.mp member).1
  have letters := Token.matches_of_mem_scan scanned (by simp [kind])
  rwa [kind] at letters

/-- Texts are read by way of their trees, of which each spells one expression. -/
theorem parse_eq_ok {text : String} {e : Expr} :
    parse text = .ok e ↔ ∃ tree, Tree.parse text = .ok tree ∧ tree.Spells e := by
  constructor
  · intro h
    unfold parse at h
    cases read : Tree.parse text with
    | error error =>
      rw [read] at h
      cases h
    | ok tree =>
      obtain ⟨f, spells⟩ := exists_spells_of_parse read
      rw [read] at h
      simp only [ofTree_of_spells spells] at h
      cases h
      exact ⟨tree, rfl, spells⟩
  · rintro ⟨tree, read, spells⟩
    unfold parse
    rw [read]
    exact ofTree_of_spells spells

/-- Exactly the sentences are read. Each gives the expression that its chains, folded to the left,
spell without their parentheses. -/
theorem parse_eq_ok_iff (text : String) :
    ((∃ e, parse text = .ok e) ↔ Phrase.Sentence (Token.ofText text)) ∧
      ∀ e, parse text = .ok e ↔
        (∀ token ∈ Token.ofText text, token.Fits) ∧
          ∃ tree, Phrase.expression.Derives (Token.ofText text) tree ∧ tree.Spells e := by
  have reads (e : Expr) : parse text = .ok e ↔
      (∀ token ∈ Token.ofText text, token.Fits) ∧
        ∃ tree, Phrase.expression.Derives (Token.ofText text) tree ∧ tree.Spells e := by
    rw [parse_eq_ok]
    constructor
    · rintro ⟨tree, read, spells⟩
      obtain ⟨derives, fits⟩ := Tree.parse_eq_ok.mp read
      exact ⟨fits, tree, derives, spells⟩
    · rintro ⟨fits, tree, derives, spells⟩
      exact ⟨tree, Tree.parse_eq_ok.mpr ⟨derives, fits⟩, spells⟩
  refine ⟨?_, reads⟩
  constructor
  · rintro ⟨e, read⟩
    obtain ⟨fits, tree, derives, _⟩ := (reads e).mp read
    exact ⟨⟨tree, derives⟩, fits⟩
  · rintro ⟨⟨tree, derives⟩, fits⟩
    have read := Tree.parse_eq_ok.mpr ⟨derives, fits⟩
    obtain ⟨e, spells⟩ := exists_spells_of_parse read
    exact ⟨e, parse_eq_ok.mpr ⟨tree, read, spells⟩⟩

/-- Every tree that is read spells an expression, so nothing but reading goes wrong. -/
theorem parse_eq_error {text : String} {error : SyntaxError} :
    parse text = .error error ↔ Tree.parse text = .error error := by
  unfold parse
  cases read : Tree.parse text with
  | error error' => simp
  | ok tree =>
    obtain ⟨e, spells⟩ := exists_spells_of_parse read
    simp [ofTree_of_spells spells]

/-- Whatever is read becomes an expression. So no text is refused for a literal that no expression
can hold. -/
theorem ofTree_of_parse (text : String) :
    (∀ tree, Tree.parse text = .ok tree → ∃ e, ofTree tree = .ok e) ∧
      ∀ spans reason, parse text ≠ .error ⟨spans, .invalidLiteral reason⟩ := by
  constructor
  · intro tree read
    obtain ⟨e, spells⟩ := exists_spells_of_parse read
    exact ⟨e, ofTree_of_spells spells⟩
  · intro spans reason refused
    obtain ⟨front, rest, _, _, _, same⟩ := Tree.parse_eq_error (parse_eq_error.mp refused)
    have fault := fault_diagnose_ne_invalidLiteral (Cursor.start (Token.scan text)).endSpan front
      rest.head? reason
    rw [Cursor.past_start, List.nil_append] at same
    rw [← same] at fault
    exact fault rfl

theorem ofTree_of_parse_product :
    let text := "007 * (x + 2.50)"
    let sum : Tree := .binary (.literal (.symbol "x" ⟨7, 8⟩)) ⟨.add, ⟨9, 10⟩⟩
      (.literal (.number ⟨0x4004000000000000⟩ ⟨11, 15⟩)) ⟨7, 15⟩
    let tree : Tree := .binary (.literal (.number ⟨0x401c000000000000⟩ ⟨0, 3⟩)) ⟨.mul, ⟨4, 5⟩⟩
      (.paren sum ⟨6, 16⟩) ⟨0, 16⟩
    Tree.parse text = .ok tree ∧ ∃ e, ofTree tree = .ok e := by
  intro text sum tree
  have read : Tree.parse text = .ok tree := by decide +kernel
  exact ⟨read, (ofTree_of_parse text).1 tree read⟩

end Expr

end SymbolicCalculus
