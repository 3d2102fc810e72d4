import Mathlib.Algebra.Order.Field.Basic
import Mathlib.Algebra.Order.Ring.Rat
import Mathlib.Data.Rat.Cast.Order
import Mathlib.Tactic.FieldSimp
import Mathlib.Tactic.Linarith
import SymbolicCalculus.Proofs.Double.Overflow
import SymbolicCalculus.Proofs.Expr.Evaluation

/-!
The double that a rational number is rounded to. No finite double is nearer, and of two that are
equally near it is the one with the even significand, so there is only one such double.
-/

set_option autoImplicit false

namespace SymbolicCalculus

theorem roundHalfEven_bounds (a : Nat) {b : Nat} (pos : 0 < b) :
    2 * (roundHalfEven a b * b) ≤ 2 * a + b ∧ 2 * a ≤ 2 * (roundHalfEven a b * b) + b ∧
      (2 * (roundHalfEven a b * b) = 2 * a + b ∨ 2 * a = 2 * (roundHalfEven a b * b) + b →
        roundHalfEven a b % 2 = 0) := by
  have split : b * (a / b) + a % b = a := Nat.div_add_mod a b
  have less : a % b < b := Nat.mod_lt a pos
  unfold roundHalfEven
  simp only
  generalize a / b = quotient at *
  rw [Nat.mul_comm b] at split
  split
  · rw [Nat.succ_mul quotient]
    omega
  · omega

/-- No multiple of a unit is nearer than the one that a quotient is rounded to, and that one is
even if another is as near. -/
theorem roundHalfEven_closest (a : Nat) {b : Nat} (pos : 0 < b) (m : Nat) :
    ((roundHalfEven a b * b : ℕ) - a : ℤ).natAbs ≤ ((m * b : ℕ) - a : ℤ).natAbs ∧
      (((m * b : ℕ) - a : ℤ).natAbs = ((roundHalfEven a b * b : ℕ) - a : ℤ).natAbs →
        m ≠ roundHalfEven a b → roundHalfEven a b % 2 = 0) := by
  obtain ⟨low, high, tie⟩ := roundHalfEven_bounds a pos
  generalize roundHalfEven a b = r at *
  rcases Nat.lt_trichotomy m r with less | rfl | more
  · have far : (m + 1) * b ≤ r * b := Nat.mul_le_mul_right b less
    rw [Nat.succ_mul m] at far
    omega
  · omega
  · have far : (r + 1) * b ≤ m * b := Nat.mul_le_mul_right b more
    rw [Nat.succ_mul r] at far
    omega

namespace Double

/-! ## Magnitudes -/

/-- A significand of two digits too many carries into the exponent. -/
theorem steps_of_magnitudeBits {x : Double} {k r : Nat}
    (bits : k * exponentBit + r = x.magnitudeBits) (most : r ≤ 2 * exponentBit)
    (least : 0 < k → exponentBit ≤ r) :
    x.steps = r <<< k ∧ (r % 2 = 0 → x.significand % 2 = 0) := by
  have parts := x.significand_add_shift
  have shift : x.shift = x.magnitudeBits / exponentBit - 1 := rfl
  unfold exponentBit at *
  rcases Nat.eq_or_lt_of_le most with carry | small
  · have next : x.shift = k + 1 := by omega
    have one : x.significand = 0x10000000000000 := by omega
    refine ⟨?_, by omega⟩
    rw [steps, next, one, carry, Nat.shiftLeft_succ, Nat.shiftLeft_eq, Nat.shiftLeft_eq]
    ring
  · have same : x.shift = k := by omega
    have rest : x.significand = r := by omega
    exact ⟨by rw [steps, same, rest], by omega⟩

theorem shiftLeft_mul (n k den : Nat) : n <<< k * den = n * (den <<< k) := by
  rw [Nat.shiftLeft_eq, Nat.shiftLeft_eq]
  ring

/-- With a smaller exponent a double is below all that are normal with this one. -/
theorem steps_mul_lt {x : Double} {k den : Nat} (pos : 0 < den) (finer : x.shift < k) :
    x.steps * den < exponentBit * (den <<< k) := by
  rw [steps, shiftLeft_mul]
  calc x.significand * (den <<< x.shift)
      < 2 * exponentBit * (den <<< x.shift) :=
        Nat.mul_lt_mul_of_pos_right x.significand_lt (unit_pos pos _)
    _ = exponentBit * (2 * (den <<< x.shift)) := by ring
    _ ≤ exponentBit * (den <<< k) := Nat.mul_le_mul_left _ (@unit_le den _ _ finer).1

/-- The magnitude bits that a fraction is rounded to are those of a double that no other double is
nearer than. -/
theorem nearestBits_closest {x : Double} {a den : Nat} (pos : 0 < den)
    (bits : nearestBits a den = x.magnitudeBits) (y : Double) :
    ((x.steps * den : ℕ) - a : ℤ).natAbs ≤ ((y.steps * den : ℕ) - a : ℤ).natAbs ∧
      (((y.steps * den : ℕ) - a : ℤ).natAbs = ((x.steps * den : ℕ) - a : ℤ).natAbs →
        y.steps ≠ x.steps → x.significand % 2 = 0) := by
  obtain ⟨k, shifted⟩ : ∃ k, (a / den).log2 - 52 = k := ⟨_, rfl⟩
  obtain ⟨below, above⟩ := shift_bounds pos shifted
  have unit := unit_pos pos k
  obtain ⟨low, _, _⟩ := roundHalfEven_bounds a unit
  have closest := roundHalfEven_closest a unit
  have least : 0 < k → exponentBit ≤ roundHalfEven a (den <<< k) := by
    intro normal
    have := above normal
    have carries := @roundHalfEven_lt_iff a _ exponentBit unit rfl
    omega
  unfold nearestBits at bits
  simp only [shifted] at bits
  generalize roundHalfEven a (den <<< k) = r at *
  have most : r ≤ 2 * exponentBit := by
    by_contra more
    have far := Nat.mul_le_mul_right (den <<< k) (Nat.lt_of_not_le more)
    rw [Nat.succ_mul] at far
    omega
  obtain ⟨grid, even⟩ := steps_of_magnitudeBits bits most least
  have value : x.steps * den = r * (den <<< k) := by rw [grid, shiftLeft_mul]
  rw [value]
  rcases Nat.lt_or_ge y.shift k with finer | coarser
  · -- Finer doubles are all below the least one of this exponent, which is a multiple of the unit.
    have least := above (Nat.lt_of_le_of_lt (Nat.zero_le _) finer)
    have under := steps_mul_lt pos finer
    have nearer := (closest exponentBit).1
    omega
  · -- Other doubles are multiples of the unit themselves.
    have multiple : y.steps * den = y.significand <<< (y.shift - k) * (den <<< k) := by
      rw [steps, ← shiftLeft_mul, ← Nat.shiftLeft_add, Nat.sub_add_cancel coarser]
    rw [multiple]
    obtain ⟨nearer, tie⟩ := closest (y.significand <<< (y.shift - k))
    refine ⟨nearer, fun same differ => even (tie same ?_)⟩
    rintro rfl
    rw [grid, steps, ← Nat.shiftLeft_add, Nat.sub_add_cancel coarser] at differ
    exact differ rfl

/-- Larger magnitude bits are of larger magnitudes. -/
theorem steps_lt_steps {x y : Double} (h : x.magnitudeBits < y.magnitudeBits) :
    x.steps < y.steps := by
  have shift : x.shift ≤ y.shift := Nat.sub_le_sub_right (Nat.div_le_div_right h.le) 1
  have parts := x.significand_add_shift
  have parts' := y.significand_add_shift
  rcases Nat.eq_or_lt_of_le shift with same | lower
  · rw [steps, steps, same, Nat.shiftLeft_eq, Nat.shiftLeft_eq]
    rw [same] at parts
    exact Nat.mul_lt_mul_of_pos_right (by omega) (Nat.two_pow_pos _)
  · have normal := exponentBit_le_significand (Nat.lt_of_le_of_lt (Nat.zero_le _) lower)
    calc x.steps = x.steps * 1 := (Nat.mul_one _).symm
      _ < exponentBit * (1 <<< y.shift) := steps_mul_lt Nat.one_pos lower
      _ ≤ y.significand * (1 <<< y.shift) := Nat.mul_le_mul_right _ normal
      _ = y.steps := by rw [← shiftLeft_mul, Nat.mul_one, steps]

/-! ## Rational numbers -/

/-- The rational number is rounded to the double, halfway between two to the even one. -/
structure Rounds (x : Double) (q : ℚ) : Prop where
  finite : x.isFinite = true
  unsigned : x.isSigned = false
  closest : ∀ y : Double, y.isFinite = true → |x.toRat - q| ≤ |y.toRat - q|
  even : ∀ y : Double, y.isFinite = true → |y.toRat - q| = |x.toRat - q| → y.toRat ≠ x.toRat →
    x.significand % 2 = 0

theorem stepsInOne_rat_pos : (0 : ℚ) < stepsInOne := Nat.cast_pos.mpr stepsInOne_pos

theorem toRat_of_unsigned {x : Double} (unsigned : x.isSigned = false) :
    x.toRat = x.steps / stepsInOne := by
  simp [toRat, unsigned]

/-- How far a magnitude is from a fraction, counted in steps over the denominator. -/
theorem abs_steps_sub (x : Double) (num : Nat) {den : Nat} (pos : 0 < den) :
    |(x.steps : ℚ) / stepsInOne - num / den| =
      (((x.steps * den : ℕ) - (num * stepsInOne : ℕ) : ℤ).natAbs : ℚ) / (stepsInOne * den) := by
  have scale : (stepsInOne : ℚ) ≠ 0 := stepsInOne_rat_pos.ne'
  have denPos : (0 : ℚ) < den := Nat.cast_pos.mpr pos
  have common : (x.steps : ℚ) / stepsInOne - num / den =
      ((x.steps * den : ℕ) - (num * stepsInOne : ℕ) : ℤ) / (stepsInOne * den) := by
    push_cast
    field_simp
  rw [common, abs_div, abs_of_pos (mul_pos stepsInOne_rat_pos denPos), Nat.cast_natAbs, Int.cast_abs]

/-- Below zero a double is no nearer to a number above than its mirror image. -/
theorem abs_steps_sub_le (y : Double) {q : ℚ} (nonneg : 0 ≤ q) :
    |(y.steps : ℚ) / stepsInOne - q| ≤ |y.toRat - q| := by
  cases signed : y.isSigned with
  | false => rw [toRat_of_unsigned signed]
  | true =>
    have magnitude : (0 : ℚ) ≤ y.steps / stepsInOne :=
      div_nonneg (Nat.cast_nonneg _) stepsInOne_rat_pos.le
    rw [toRat, signed, if_pos rfl]
    generalize (y.steps : ℚ) / stepsInOne = v at *
    rw [abs_le, abs_of_nonpos (by linarith)]
    constructor <;> linarith

theorem magnitudeBits_nearest {num den : Nat} (finite : (nearest num den).isFinite = true) :
    nearestBits (num * stepsInOne) den = (nearest num den).magnitudeBits := by
  have small := (isFinite_nearest num den).mp finite
  unfold nearest
  simp only [if_pos small]
  have bitsEq := ofMagnitudeBits_toNat (Nat.lt_trans small (by decide))
  rw [magnitudeBits_eq_of_lt (by rw [bitsEq]; exact Nat.lt_trans small (by decide)), bitsEq]

theorem isSigned_nearest (num den : Nat) : (nearest num den).isSigned = false := by
  rw [Bool.eq_false_iff, Ne, isSigned_iff, Nat.not_le]
  exact Nat.lt_of_le_of_lt (nearest_toNat_le num den) (by decide)

/-- The double nearest to a fraction is the one that it is rounded to. -/
theorem rounds_nearest {num den : Nat} (pos : 0 < den)
    (finite : (nearest num den).isFinite = true) : (nearest num den).Rounds (num / den) := by
  have near := nearestBits_closest pos (magnitudeBits_nearest finite)
  have unsigned := isSigned_nearest num den
  generalize nearest num den = x at *
  have nonneg : (0 : ℚ) ≤ num / den := div_nonneg (Nat.cast_nonneg _) (Nat.cast_nonneg _)
  have value := toRat_of_unsigned unsigned
  have scale : (0 : ℚ) < stepsInOne * den := mul_pos stepsInOne_rat_pos (Nat.cast_pos.mpr pos)
  have closest (y : Double) : |x.toRat - num / den| ≤ |(y.steps : ℚ) / stepsInOne - num / den| := by
    rw [value, abs_steps_sub x num pos, abs_steps_sub y num pos]
    exact div_le_div_of_nonneg_right (Nat.cast_le.mpr (near y).1) scale.le
  refine ⟨finite, unsigned, fun y _ => (closest y).trans (abs_steps_sub_le y nonneg), ?_⟩
  intro y _ same differ
  have mirror := le_antisymm ((abs_steps_sub_le y nonneg).trans same.le) (closest y)
  refine (near y).2 ?_ ?_
  · rw [value, abs_steps_sub x num pos, abs_steps_sub y num pos,
      div_left_inj' scale.ne', Nat.cast_inj] at mirror
    exact mirror
  · -- Of the same magnitude, the doubles could only have different signs, and then be zero.
    intro magnitude
    have positive : (0 : ℚ) ≤ y.steps / stepsInOne :=
      div_nonneg (Nat.cast_nonneg _) stepsInOne_rat_pos.le
    rw [value, ← magnitude] at same differ
    cases signed : y.isSigned with
    | false => exact differ (toRat_of_unsigned signed)
    | true =>
      have nearZero := closest zero
      have noSteps : zero.steps = 0 := by decide
      rw [value, ← magnitude, noSteps, Nat.cast_zero, zero_div, zero_sub, abs_neg,
        abs_of_nonneg nonneg] at nearZero
      rw [toRat, signed, if_pos rfl] at same differ
      generalize (y.steps : ℚ) / stepsInOne = v at *
      rw [abs_of_nonpos (by linarith)] at same
      exact differ (by linarith)

theorem toRat_lt_toRat {x y : Double} (unsigned : x.isSigned = false)
    (unsigned' : y.isSigned = false) (h : x.magnitudeBits < y.magnitudeBits) :
    x.toRat < y.toRat := by
  rw [toRat_of_unsigned unsigned, toRat_of_unsigned unsigned']
  exact div_lt_div_of_pos_right (Nat.cast_lt.mpr (steps_lt_steps h)) stepsInOne_rat_pos

/-- Of two numbers the larger one is as near as the smaller only from the middle on, and the smaller
one up to it. -/
theorem middle_of_nearer {u v q : ℚ} (lt : u < v) :
    (|v - q| ≤ |u - q| → u + v ≤ 2 * q) ∧ (|u - q| ≤ |v - q| → 2 * q ≤ u + v) := by
  rcases abs_cases (v - q) with ⟨upper, _⟩ | ⟨upper, _⟩ <;>
    rcases abs_cases (u - q) with ⟨lower, _⟩ | ⟨lower, _⟩ <;>
    rw [upper, lower] <;> constructor <;> intro _ <;> linarith

/-- Between two doubles that were both even there would be a nearer one. -/
theorem Rounds.not_lt {x y : Double} {q : ℚ} (h : x.Rounds q) (h' : y.Rounds q) :
    ¬x.magnitudeBits < y.magnitudeBits := by
  intro less
  have lt := toRat_lt_toRat h.unsigned h'.unsigned less
  have same := le_antisymm (h.closest y h'.finite) (h'.closest x h.finite)
  have even := h.even y h'.finite same.symm lt.ne'
  have even' := h'.even x h.finite same lt.ne
  have parts := x.significand_add_shift
  have parts' := y.significand_add_shift
  have finite' := isFinite_iff.mp h'.finite
  unfold exponentBit at parts parts'
  have apart : x.magnitudeBits + 1 < y.magnitudeBits := by omega
  let z := ofMagnitudeBits false (x.magnitudeBits + 1)
  have small : x.magnitudeBits + 1 < signBit := by
    unfold infiniteBits exponentBit at finite'
    unfold signBit
    omega
  have bitsEq : z.bits.toNat = x.magnitudeBits + 1 :=
    ofMagnitudeBits_toNat (Nat.lt_trans small (by decide))
  have bits : z.magnitudeBits = x.magnitudeBits + 1 := by
    rw [magnitudeBits_eq_of_lt (bitsEq ▸ small), bitsEq]
  have unsigned : z.isSigned = false := by
    rw [Bool.eq_false_iff, Ne, isSigned_iff, bitsEq]
    exact Nat.not_le.mpr small
  have finite : z.isFinite = true := isFinite_iff.mpr (by omega)
  have above := toRat_lt_toRat h.unsigned unsigned (by omega)
  have below := toRat_lt_toRat unsigned h'.unsigned (by omega)
  have middle := (middle_of_nearer lt).1 same.ge
  have nearer := (middle_of_nearer above).2 (h.closest z finite)
  linarith

/-- Only one double is what a number is rounded to. -/
theorem Rounds.unique {x y : Double} {q : ℚ} (h : x.Rounds q) (h' : y.Rounds q) : x = y := by
  have bits := Nat.le_antisymm (Nat.le_of_not_lt (h'.not_lt h)) (Nat.le_of_not_lt (h.not_lt h'))
  have unsigned {x : Double} (h : x.isSigned = false) : x.bits.toNat < signBit := by
    rwa [Bool.eq_false_iff, Ne, isSigned_iff, Nat.not_le] at h
  rw [← ofMagnitudeBits_eq (unsigned h.unsigned), bits, ofMagnitudeBits_eq (unsigned h'.unsigned)]

/-- Larger numbers are not rounded to smaller doubles. -/
theorem Rounds.mono {x y : Double} {p q : ℚ} (h : x.Rounds p) (h' : y.Rounds q) (le : p ≤ q) :
    x.toRat ≤ y.toRat := by
  by_contra less
  rw [not_le] at less
  have right := (middle_of_nearer less).1 (h.closest y h'.finite)
  have left := (middle_of_nearer less).2 (h'.closest x h.finite)
  -- Both numbers would have to be the one in the middle.
  have same : p = q := by linarith
  rw [h.unique (same ▸ h')] at less
  exact less.false

end Double

end SymbolicCalculus
