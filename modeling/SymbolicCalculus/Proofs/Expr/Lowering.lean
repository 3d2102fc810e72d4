import Mathlib.Algebra.Order.Field.Basic
import Mathlib.Algebra.Order.Ring.Rat
import SymbolicCalculus.Proofs.Expr.Evaluation
import SymbolicCalculus.Proofs.Expr.Reading

/-!
Which syntax trees are expressions. The spine of a tree is taken apart first and its right operands
come after, but what is found wrong is what is wrong first in the order of the text.
-/

set_option autoImplicit false

namespace SymbolicCalculus

namespace Double

theorem steps_pos_of_not_isZero {x : Double} (h : ¬x.isZero = true) : 0 < x.steps := by
  rw [isZero_iff] at h
  have parts := x.significand_add_shift
  have leading : 0 < x.significand := by
    rcases Nat.eq_zero_or_pos x.shift with least | normal
    · rw [least] at parts
      omega
    · exact Nat.lt_of_lt_of_le (by decide) (exponentBit_le_significand normal)
  rw [steps, Nat.shiftLeft_eq]
  exact Nat.mul_pos leading (Nat.two_pow_pos _)

theorem toRat_eq_zero_of_isZero {x : Double} (h : x.isZero = true) : x.toRat = 0 := by
  have noSteps : x.steps = 0 := by
    rw [steps, significand, isZero_iff.mp h, Nat.zero_sub, Nat.zero_shiftLeft]
  rw [toRat, noSteps, Nat.cast_zero, zero_div, mul_zero]

/-- The test of the sign tells whether the value of a finite double is below zero. -/
theorem isNegative_iff {x : Double} (finite : x.isFinite = true) :
    x.isNegative = true ↔ x.toRat < 0 := by
  by_cases isZero : x.isZero = true
  · simp [isNegative, isZero, toRat_eq_zero_of_isZero isZero]
  · have pos : (0 : ℚ) < x.steps / stepsInOne :=
      div_pos (Nat.cast_pos.mpr (steps_pos_of_not_isZero isZero)) (Nat.cast_pos.mpr stepsInOne_pos)
    cases signed : x.isSigned <;>
      simp [isNegative, toRat, signed, isZero, isNaN_eq_false_of_isFinite finite, pos, pos.le]

end Double

/-! ## Literals -/

namespace Literal

/-- A literal that an expression can hold: a finite number not below zero, or a name made of one or
more letters. -/
def Valid : Literal → Prop
  | number x _ => x.isFinite = true ∧ 0 ≤ x.toRat
  | symbol name _ => name ≠ "" ∧ ∀ c ∈ name.toList, 'a' ≤ c ∧ c ≤ 'z' ∨ 'A' ≤ c ∧ c ≤ 'Z'

/-- What is wrong with a literal that is not valid. -/
inductive Refused : Literal → Refusal → Prop where
  | nonFinite {x : Double} (span : Span) (h : ¬x.isFinite = true) :
      Refused (number x span) (.nonFiniteNumber x)
  | negative {x : Double} (span : Span) (finite : x.isFinite = true) (h : x.toRat < 0) :
      Refused (number x span) (.negativeNumber x)
  | name {name : String} (span : Span) (h : ¬(symbol name span).Valid) :
      Refused (symbol name span) (.variableName name)

/-- The leaf that keeps what a literal holds, but for the sign of a zero. -/
inductive Stores : Literal → Atom → Prop where
  | number {x : Double} {n : Number} (span : Span)
      (same : n.value = if x.isZero then .zero else x) : Stores (.number x span) (.number n)
  | name (v : Variable) (span : Span) : Stores (.symbol v.name span) (.var v)

end Literal

theorem Number.ofDouble_eq_ok {x : Double} {n : Number} :
    Number.ofDouble x = .ok n ↔ n.value = if x.isZero then .zero else x := by
  constructor
  · intro h
    unfold ofDouble at h
    split at h
    · split at h
      · cases h
      · split at h
        · rename_i isZero
          cases h
          exact (if_pos isZero).symm
        · rename_i isZero
          cases h
          exact (if_neg isZero).symm
    · cases h
  · intro same
    by_cases isZero : x.isZero = true
    · have finite : x.isFinite = true := by
        rw [Double.isFinite_iff, Double.isZero_iff.mp isZero]
        decide
      have unsigned : ¬x.isNegative = true := by simp [Double.isNegative, isZero]
      obtain ⟨value, _⟩ := n
      rw [if_pos isZero] at same
      obtain rfl : value = .zero := same
      unfold ofDouble
      rw [dif_pos finite, dif_neg unsigned, dif_pos isZero]
      rfl
    · rw [if_neg isZero] at same
      rw [← same, n.ofDouble_value]

theorem Number.ofDouble_eq_error {x : Double} {reason : Refusal} (span : Span) :
    Number.ofDouble x = .error reason ↔ (Literal.number x span).Refused reason := by
  constructor
  · intro h
    unfold ofDouble at h
    split at h
    · rename_i finite
      split at h
      · rename_i negative
        cases h
        exact .negative span finite ((Double.isNegative_iff finite).mp negative)
      · split at h <;> cases h
    · rename_i infinite
      cases h
      exact .nonFinite span infinite
  · intro refused
    unfold ofDouble
    cases refused with
    | nonFinite _ infinite => rw [dif_neg infinite]
    | negative _ finite below =>
      rw [dif_pos finite, dif_pos ((Double.isNegative_iff finite).mpr below)]

theorem Variable.isName_iff {name : String} (span : Span) :
    Variable.isName name = true ↔ (Literal.symbol name span).Valid := by
  simp only [isName, Literal.Valid, Bool.and_eq_true, Bool.not_eq_true', List.all_eq_true]
  refine and_congr (by simp) (forall₂_congr fun c _ => ?_)
  change (decide ('A' ≤ c ∧ c ≤ 'Z') || decide ('a' ≤ c) && decide (c ≤ 'z')) = true ↔ _
  simp only [Bool.or_eq_true, Bool.and_eq_true, decide_eq_true_eq]
  exact or_comm

theorem Variable.ofName_eq_ok {name : String} {v : Variable} :
    Variable.ofName name = .ok v ↔ v.name = name := by
  constructor
  · intro h
    unfold ofName at h
    split at h
    · cases h
      rfl
    · cases h
  · rintro rfl
    exact v.ofName_name

theorem Variable.ofName_eq_error {name : String} {reason : Refusal} (span : Span) :
    Variable.ofName name = .error reason ↔ (Literal.symbol name span).Refused reason := by
  constructor
  · intro h
    unfold ofName at h
    split at h
    · cases h
    · rename_i invalid
      cases h
      exact .name span (mt (isName_iff span).mpr invalid)
  · intro refused
    cases refused with
    | name _ invalid =>
      unfold ofName
      rw [dif_neg (mt (isName_iff span).mp invalid)]

namespace Literal

theorem toAtom_eq_ok {literal : Literal} {leaf : Atom} :
    literal.toAtom = .ok leaf ↔ literal.Stores leaf := by
  constructor
  · intro h
    cases literal with
    | number x span =>
      cases made : Number.ofDouble x with
      | error reason => simp [toAtom, made, Except.map] at h
      | ok n =>
        simp only [toAtom, made, Except.map, Except.ok.injEq] at h
        subst h
        exact .number span (Number.ofDouble_eq_ok.mp made)
    | symbol name span =>
      cases made : Variable.ofName name with
      | error reason => simp [toAtom, made, Except.map] at h
      | ok v =>
        simp only [toAtom, made, Except.map, Except.ok.injEq] at h
        subst h
        obtain rfl := Variable.ofName_eq_ok.mp made
        exact .name v span
  · intro stores
    cases stores with
    | number span same => rw [toAtom, Number.ofDouble_eq_ok.mpr same]; rfl
    | name v span => rw [toAtom, v.ofName_name]; rfl

theorem toAtom_eq_error {literal : Literal} {reason : Refusal} :
    literal.toAtom = .error reason ↔ literal.Refused reason := by
  cases literal with
  | number x span =>
    rw [← Number.ofDouble_eq_error, toAtom]
    cases Number.ofDouble x <;> simp [Except.map]
  | symbol name span =>
    rw [← Variable.ofName_eq_error, toAtom]
    cases Variable.ofName name <;> simp [Except.map]

theorem valid_iff {literal : Literal} : literal.Valid ↔ ∀ reason, ¬literal.Refused reason := by
  constructor
  · intro valid reason refused
    cases refused with
    | nonFinite _ infinite => exact infinite valid.1
    | negative _ _ below => exact absurd valid.2 (not_le.mpr below)
    | name _ invalid => exact invalid valid
  · intro accepted
    cases literal with
    | number x span =>
      have finite : x.isFinite = true := by
        by_contra infinite
        exact accepted _ (.nonFinite span infinite)
      refine ⟨finite, ?_⟩
      by_contra below
      exact accepted _ (.negative span finite (not_le.mp below))
    | symbol name span =>
      by_contra invalid
      exact accepted _ (.name span invalid)

/-- Of the literals, expressions hold just the valid ones. -/
theorem valid_iff_exists_stores {literal : Literal} :
    literal.Valid ↔ ∃ leaf, literal.Stores leaf := by
  simp only [valid_iff, ← toAtom_eq_error, ← toAtom_eq_ok]
  cases literal.toAtom <;> simp

/-- A literal with what is wrong with it, of some literals the first that is not valid. -/
def FirstRefused (literals : List Literal) (bad : Literal) (reason : Refusal) : Prop :=
  ∃ before after, literals = before ++ bad :: after ∧ (∀ sound ∈ before, sound.Valid) ∧
    bad.Refused reason

theorem firstRefused_singleton {literal bad : Literal} {reason : Refusal} :
    FirstRefused [literal] bad reason ↔ bad = literal ∧ literal.Refused reason := by
  constructor
  · rintro ⟨before, after, split, _, refused⟩
    obtain ⟨rfl, same⟩ | ⟨_, impossible⟩ := List.singleton_eq_append_iff.mp split
    · obtain ⟨rfl, rfl⟩ := List.cons.inj same
      exact ⟨rfl, refused⟩
    · cases impossible
  · rintro ⟨rfl, refused⟩
    exact ⟨[], [], rfl, by simp, refused⟩

theorem FirstRefused.not_valid {literals : List Literal} {bad : Literal} {reason : Refusal}
    (h : FirstRefused literals bad reason) : ¬∀ literal ∈ literals, literal.Valid := by
  obtain ⟨before, after, rfl, _, refused⟩ := h
  intro valid
  exact valid_iff.mp (valid bad (by simp)) reason refused

theorem firstRefused_append {first second : List Literal} {bad : Literal} {reason : Refusal} :
    FirstRefused (first ++ second) bad reason ↔
      FirstRefused first bad reason ∨
        (∀ sound ∈ first, sound.Valid) ∧ FirstRefused second bad reason := by
  constructor
  · rintro ⟨before, after, split, sound, refused⟩
    rcases List.append_eq_append_iff.mp split with ⟨middle, rfl, behind⟩ | ⟨middle, front, behind⟩
    · have valid := List.forall_mem_append.mp sound
      exact .inr ⟨valid.1, middle, after, behind, valid.2, refused⟩
    · cases middle with
      | nil =>
        rw [List.append_nil] at front
        rw [front]
        exact .inr ⟨sound, [], after, behind.symm, by simp, refused⟩
      | cons head middle =>
        obtain ⟨rfl, _⟩ := List.cons.inj behind
        exact .inl ⟨before, middle, front, sound, refused⟩
  · rintro (⟨before, after, rfl, sound, refused⟩ | ⟨valid, before, after, rfl, sound, refused⟩)
    · exact ⟨before, after ++ second, by simp, sound, refused⟩
    · exact ⟨first ++ before, after, by simp, List.forall_mem_append.mpr ⟨valid, sound⟩, refused⟩

end Literal

/-! ## Trees -/

namespace Tree

/-- The literals of a tree from left to right. -/
def leaves : Tree → List Literal
  | literal value => [value]
  | paren inner _ => inner.leaves
  | binary lhs _ rhs _ => lhs.leaves ++ rhs.leaves

/-- The expression that is a tree node by node. Leaves hold what the literals do, parentheses are
dropped, and operations keep their operator and operands. -/
inductive Lowers : Tree → Expr → Prop where
  | literal {value : Literal} {leaf : Atom} (stores : value.Stores leaf) :
      Lowers (.literal value) (.atom leaf)
  | paren {inner : Tree} {e : Expr} (span : Span) (inside : Lowers inner e) :
      Lowers (.paren inner span) e
  | binary {lhs rhs : Tree} {left right : Expr} (connective : Connective) (span : Span)
      (first : Lowers lhs left) (second : Lowers rhs right) :
      Lowers (.binary lhs connective rhs span) (.operation connective.operator left right)

theorem exists_lowers_iff {tree : Tree} :
    (∃ e, tree.Lowers e) ↔ ∀ leaf ∈ tree.leaves, leaf.Valid := by
  induction tree with
  | literal value =>
    simp only [leaves, List.forall_mem_singleton, Literal.valid_iff_exists_stores]
    constructor
    · rintro ⟨_, lowers⟩
      cases lowers with
      | literal stores => exact ⟨_, stores⟩
    · rintro ⟨leaf, stores⟩
      exact ⟨_, .literal stores⟩
  | paren inner span ih =>
    rw [leaves, ← ih]
    constructor
    · rintro ⟨e, lowers⟩
      cases lowers with
      | paren _ inside => exact ⟨e, inside⟩
    · rintro ⟨e, inside⟩
      exact ⟨e, .paren span inside⟩
  | binary lhs connective rhs span ihLeft ihRight =>
    rw [leaves, List.forall_mem_append, ← ihLeft, ← ihRight]
    constructor
    · rintro ⟨_, lowers⟩
      cases lowers with
      | binary _ _ first second => exact ⟨⟨_, first⟩, ⟨_, second⟩⟩
    · rintro ⟨⟨left, first⟩, ⟨right, second⟩⟩
      exact ⟨_, .binary connective span first second⟩

end Tree

namespace Expr

theorem ofTree_eq_ok {tree : Tree} {e : Expr} : ofTree tree = .ok e ↔ tree.Lowers e := by
  constructor
  · intro h
    induction tree generalizing e with
    | literal value =>
      rw [ofTree_literal] at h
      cases made : value.toAtom with
      | error reason => simp [made] at h
      | ok leaf =>
        simp only [made, Except.ok.injEq] at h
        subst h
        exact .literal (Literal.toAtom_eq_ok.mp made)
    | paren inner span ih =>
      rw [ofTree_paren] at h
      exact .paren span (ih h)
    | binary lhs connective rhs span ihLeft ihRight =>
      rw [ofTree_binary] at h
      cases first : ofTree lhs with
      | error error => simp [first, Except.bind] at h
      | ok left =>
        cases second : ofTree rhs with
        | error error => simp [first, second, Except.bind] at h
        | ok right =>
          simp only [first, second, Except.bind, Except.ok.injEq] at h
          subst h
          exact .binary connective span (ihLeft first) (ihRight second)
  · intro lowers
    induction lowers with
    | literal stores => rw [ofTree_literal, Literal.toAtom_eq_ok.mpr stores]
    | paren span _ ih => rw [ofTree_paren, ih]
    | binary connective span _ _ ihFirst ihSecond =>
      rw [ofTree_binary, ihFirst, ihSecond]
      rfl

theorem ofTree_eq_error {tree : Tree} {error : SyntaxError} :
    ofTree tree = .error error ↔
      ∃ bad reason, Literal.FirstRefused tree.leaves bad reason ∧
        error = ⟨[bad.span], .invalidLiteral reason⟩ := by
  induction tree generalizing error with
  | literal value =>
    rw [ofTree_literal]
    simp only [Tree.leaves, Literal.firstRefused_singleton, ← Literal.toAtom_eq_error]
    cases value.toAtom with
    | error reason => simp [eq_comm]
    | ok leaf => simp
  | paren inner span ih => rw [ofTree_paren, ih, Tree.leaves]
  | binary lhs connective rhs span ihLeft ihRight =>
    rw [ofTree_binary]
    simp only [Tree.leaves, Literal.firstRefused_append]
    cases first : ofTree lhs with
    | error found =>
      -- The right operand does not come up, and its literals stand behind the first one refused.
      have invalid : ¬∀ leaf ∈ lhs.leaves, leaf.Valid := by
        rw [← Tree.exists_lowers_iff]
        rintro ⟨left, lowers⟩
        rw [ofTree_eq_ok.mpr lowers] at first
        cases first
      rw [first] at ihLeft
      simp only [invalid, false_and, or_false]
      exact ihLeft
    | ok left =>
      have valid := Tree.exists_lowers_iff.mp ⟨left, ofTree_eq_ok.mp first⟩
      have sound (bad : Literal) (reason : Refusal) :
          ¬Literal.FirstRefused lhs.leaves bad reason := fun h => h.not_valid valid
      have second : ((ofTree rhs).bind fun right =>
          .ok (operation connective.operator left right)) = .error error ↔
            ofTree rhs = .error error := by
        cases ofTree rhs <;> simp [Except.bind]
      simp only [sound, false_or, and_iff_right valid]
      exact second.trans ihRight

/-- A tree is an expression if all of its literals are valid. What it becomes is then the same tree
without places and parentheses, and otherwise the error is about the first literal that is not
valid, at its place. -/
theorem ofTree_outcome (tree : Tree) :
    ((∃ e, ofTree tree = .ok e) ↔ ∀ leaf ∈ tree.leaves, leaf.Valid) ∧
      (∀ e, ofTree tree = .ok e ↔ tree.Lowers e) ∧
      ∀ error, ofTree tree = .error error ↔
        ∃ bad reason, Literal.FirstRefused tree.leaves bad reason ∧
          error = ⟨[bad.span], .invalidLiteral reason⟩ :=
  ⟨by simp only [ofTree_eq_ok, Tree.exists_lowers_iff], fun _ => ofTree_eq_ok,
    fun _ => ofTree_eq_error⟩

/-- In `(-0.0 + -1.0) * x1` the zero passes, and the number is refused before the name. -/
example :
    let zero : Tree := .literal (.number ⟨0x8000000000000000⟩ ⟨1, 5⟩)
    let one : Tree := .literal (.number ⟨0xbff0000000000000⟩ ⟨8, 12⟩)
    let sum : Tree := .paren (.binary zero ⟨.add, ⟨6, 7⟩⟩ one ⟨1, 12⟩) ⟨0, 13⟩
    ofTree (.binary sum ⟨.mul, ⟨14, 15⟩⟩ (.literal (.symbol "x1" ⟨16, 18⟩)) ⟨0, 18⟩) =
      .error ⟨[⟨8, 12⟩], .invalidLiteral (.negativeNumber ⟨0xbff0000000000000⟩)⟩ := by
  decide +kernel

end Expr

end SymbolicCalculus
