import Mathlib.Data.List.Infix
import SymbolicCalculus.Expr.Derivative
import SymbolicCalculus.Proofs.Expr.PostOrder
import SymbolicCalculus.Proofs.Expr.Reading

/-!
How far to the right expressions nest. Functions on expressions call themselves only for right
operands, so this is how deep their calls get. Chains of any length nest by one, so it hangs on the
parentheses of the text, and every differentiation at most doubles it.
-/

set_option autoImplicit false

namespace SymbolicCalculus

/-- Behind none of the tokens are more than so many parentheses open that were not open before. -/
def NestsWithin (depth : Nat) (before tokens : List Token) : Prop :=
  ∀ front, front <+: tokens → (Nest.of (before ++ front)).depth ≤ (Nest.of before).depth + depth

namespace NestsWithin

variable {depth : Nat} {before first second : List Token} {opening : Token}

theorem left (h : NestsWithin depth before (first ++ second)) : NestsWithin depth before first :=
  fun front leads => h front (leads.trans (List.prefix_append ..))

/-- What follows tokens that leave nothing open nests no deeper than all of it. -/
theorem right (h : NestsWithin depth before (first ++ second))
    (closed : (Nest.of (before ++ first)).depth = (Nest.of before).depth) :
    NestsWithin depth (before ++ first) second := by
  intro front leads
  rw [closed, List.append_assoc]
  exact h (first ++ front) ((List.prefix_append_right_inj first).mpr leads)

/-- Inside parentheses there is one parenthesis less to open. -/
theorem inside (h : NestsWithin depth before (opening :: first)) (opens : opening.kind = .openParen) :
    ∃ less, depth = less + 1 ∧ NestsWithin less (before ++ [opening]) first := by
  have deeper : (Nest.of (before ++ [opening])).depth = (Nest.of before).depth + 1 := by
    rw [Nest.of_snoc, Nest.push_opening _ opens]
    rfl
  have entered := h [opening] ⟨first, rfl⟩
  refine ⟨depth - 1, by omega, ?_⟩
  intro front leads
  have further := h (opening :: front) (List.cons_prefix_cons.mpr ⟨rfl, leads⟩)
  rw [List.append_cons] at further
  omega

end NestsWithin

namespace Expr

/-- The most right operands on a way down from the root. -/
def rightDepth : Expr → Nat
  | atom _ => 0
  | operation _ left right => max left.rightDepth (right.rightDepth + 1)

theorem count_right_le {e node : Expr} {place : Place} (found : e.at? place = some node) :
    place.count .right ≤ e.rightDepth := by
  induction e generalizing place with
  | atom value =>
    rcases List.eq_nil_or_concat place with rfl | ⟨place, side, rfl⟩
    · exact Nat.zero_le _
    · rw [List.concat_eq_append, at?_atom_append] at found
      cases found
  | operation op left right ihLeft ihRight =>
    rcases List.eq_nil_or_concat place with rfl | ⟨place, side, rfl⟩
    · exact Nat.zero_le _
    · rw [List.concat_eq_append] at found ⊢
      rw [List.count_append, rightDepth]
      cases side with
      | left =>
        rw [at?_left] at found
        exact Nat.le_trans (ihLeft found) (Nat.le_max_left ..)
      | right =>
        rw [at?_right] at found
        exact Nat.le_trans (Nat.succ_le_succ (ihRight found)) (Nat.le_max_right ..)

/-! ## Derivatives -/

/-- Both operands of a product end up one right operand further down at most, and the derivative of
the right one two. -/
theorem rightDepth_derivative_le (name : String) (e : Expr) :
    (derivative name e).rightDepth ≤ 2 * e.rightDepth := by
  induction e with
  | atom value =>
    rw [derivative_atom]
    exact Nat.zero_le _
  | operation op left right ihLeft ihRight =>
    rw [derivative_operation]
    cases op with
    | add =>
      simp only [derivativeRule, add, rightDepth]
      omega
    | mul =>
      simp only [derivativeRule, add, mul, rightDepth]
      omega

/-- The derivative by one variable after another. -/
def derivatives (names : List String) (e : Expr) : Expr :=
  names.foldl (fun f name => derivative name f) e

theorem rightDepth_derivatives_le (names : List String) (e : Expr) :
    (derivatives names e).rightDepth ≤ 2 ^ names.length * e.rightDepth := by
  induction names generalizing e with
  | nil => simp [derivatives]
  | cons name names ih =>
    calc (derivatives names (derivative name e)).rightDepth
        ≤ 2 ^ names.length * (derivative name e).rightDepth := ih _
      _ ≤ 2 ^ names.length * (2 * e.rightDepth) :=
        Nat.mul_le_mul_left _ (rightDepth_derivative_le name e)
      _ = 2 ^ (names.length + 1) * e.rightDepth := by rw [Nat.pow_succ, Nat.mul_assoc]

end Expr

/-! ## Phrases -/

/-- How many right operands a phrase has one inside the other, parentheses aside: a term stands to
the right of a sum, and a primary to the right of a product. -/
def Phrase.rightOperands : Phrase → Nat
  | primary => 0
  | chain .mul => 1
  | chain .add => 2

theorem Phrase.rightOperands_operand (op : Operator) :
    (Phrase.operand op).rightOperands + 1 = (Phrase.chain op).rightOperands := by
  cases op <;> rfl

theorem Tree.Spells.rightDepth_literal {value : Literal} {e : Expr}
    (h : (Tree.literal value).Spells e) : e.rightDepth = 0 := by
  cases h <;> rfl

theorem Phrase.Derives.rightDepth_le {phrase : Phrase} {tokens : List Token} {tree : Tree}
    (h : phrase.Derives tokens tree) {e : Expr} (spells : tree.Spells e) {depth : Nat}
    {before : List Token} (within : NestsWithin depth before tokens) :
    e.rightDepth ≤ 2 * depth + phrase.rightOperands := by
  induction h using growing generalizing e depth before with
  | numeral | name =>
    rw [spells.rightDepth_literal]
    exact Nat.zero_le _
  | group opens closes inside ih =>
    cases spells with
    | paren _ spells =>
      obtain ⟨less, rfl, deeper⟩ := within.inside opens
      exact ih spells deeper.left
  | @single op tokens tree h ih =>
    have operand := Phrase.rightOperands_operand op
    have bound := ih spells within
    omega
  | @snoc op tokens more sign tree rhs left kind right ihLeft ihRight =>
    cases spells with
    | binary _ _ first second =>
      have operand := Phrase.rightOperands_operand op
      have boundLeft := ihLeft first within.left
      -- Behind the sign no more is open than in front of the chain.
      have closed : (Nest.of (before ++ (tokens ++ [sign]))).depth = (Nest.of before).depth := by
        rw [← List.append_assoc, Nest.of_snoc, left.nest_append, Nest.push_plain]
        · rfl
        · cases op <;> simp [kind, Operator.kind]
        · cases op <;> simp [kind, Operator.kind]
      rw [List.append_cons] at within
      have boundRight := ihRight second (within.right closed)
      rw [Expr.rightDepth]
      omega

namespace Expr

/-- If the parentheses of a text nest at most `depth` deep, no way down in its expression takes more
than `2 * (depth + 1)` right operands, and in its `n`-th derivatives `2 ^ n` times as many. The
number of terms and factors does not matter. -/
theorem count_right_derivatives_le {text : String} {e : Expr} {depth : Nat}
    (read : parse text = .ok e)
    (shallow : ∀ front, front <+: Token.ofText text → (Nest.of front).depth ≤ depth)
    (names : List String) :
    ∀ place node, (derivatives names e).at? place = some node →
      place.count .right ≤ 2 ^ names.length * (2 * (depth + 1)) := by
  obtain ⟨tree, read, spells⟩ := parse_eq_ok.mp read
  obtain ⟨derives, _⟩ := Tree.parse_eq_ok.mp read
  have within : NestsWithin depth [] (Token.ofText text) := by
    intro front leads
    rw [List.nil_append]
    exact Nat.le_trans (shallow front leads) (Nat.le_add_left ..)
  have bound : e.rightDepth ≤ 2 * (depth + 1) := derives.rightDepth_le spells within
  intro place node found
  calc place.count .right
      ≤ (derivatives names e).rightDepth := count_right_le found
    _ ≤ 2 ^ names.length * e.rightDepth := rightDepth_derivatives_le names e
    _ ≤ 2 ^ names.length * (2 * (depth + 1)) := Nat.mul_le_mul_left _ bound

/-- With one pair of parentheses in the text, the second derivatives keep to sixteen. -/
theorem count_right_derivatives_le_product :
    let text := "a * (b + c * c)"
    let a : Expr := atom (.var ⟨"a", by decide⟩)
    let b : Expr := atom (.var ⟨"b", by decide⟩)
    let c : Expr := atom (.var ⟨"c", by decide⟩)
    let e := mul a (add b (mul c c))
    parse text = .ok e ∧
      (∀ front, front <+: Token.ofText text → (Nest.of front).depth ≤ 1) ∧
      ∀ place node, (derivatives ["c", "c"] e).at? place = some node → place.count .right ≤ 16 := by
  intro text a b c e
  have read : parse text = .ok e := by decide +kernel
  have all : ∀ front ∈ (Token.ofText text).inits, (Nest.of front).depth ≤ 1 := by decide +kernel
  have shallow : ∀ front, front <+: Token.ofText text → (Nest.of front).depth ≤ 1 :=
    fun front leads => all front ((List.mem_inits ..).mpr leads)
  exact ⟨read, shallow, count_right_derivatives_le read shallow ["c", "c"]⟩

end Expr

end SymbolicCalculus
