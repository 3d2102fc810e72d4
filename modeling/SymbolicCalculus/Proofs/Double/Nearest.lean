import Mathlib.Tactic.Ring
import SymbolicCalculus.Double.Shortest

/-!
When a fraction is read as a given double. It is if it lies between the halfway points to the two
neighbours, and at such a point only if the significand is even.
-/

set_option autoImplicit false

namespace SymbolicCalculus

/-- A quotient within one half of a whole number is rounded to it, from halves if it is even. -/
theorem roundHalfEven_eq {a b n : Nat} (pos : 0 < b) (low : 2 * (n * b) ≤ 2 * a + b)
    (high : 2 * a ≤ 2 * (n * b) + b)
    (tie : 2 * (n * b) = 2 * a + b ∨ 2 * a = 2 * (n * b) + b → n % 2 = 0) :
    roundHalfEven a b = n := by
  have split := Nat.div_add_mod a b
  rcases Nat.lt_or_ge a (n * b) with less | more
  · -- The quotient is one less, and rounds up.
    cases n with
    | zero => simp at less
    | succ m =>
      rw [Nat.succ_mul m] at low high tie less
      have quotient : a / b = m := by
        apply Nat.div_eq_of_lt_le
        · omega
        · rw [Nat.succ_mul m]
          omega
      rw [quotient, Nat.mul_comm] at split
      unfold roundHalfEven
      simp only [quotient]
      rw [if_pos (by omega)]
  · have quotient : a / b = n := by
      apply Nat.div_eq_of_lt_le more
      rw [Nat.succ_mul]
      omega
    rw [quotient, Nat.mul_comm] at split
    unfold roundHalfEven
    simp only [quotient]
    rw [if_neg (by omega)]

namespace Double

theorem ofMagnitudeBits_toNat {n : Nat} (small : n < UInt64.size) :
    (ofMagnitudeBits false n).bits.toNat = n := by
  simp [ofMagnitudeBits, UInt64.toNat_ofNat_of_lt' small]

theorem ofMagnitudeBits_eq {x : Double} (unsigned : x.bits.toNat < signBit) :
    ofMagnitudeBits false x.magnitudeBits = x := by
  obtain ⟨bits⟩ := x
  rw [magnitudeBits_eq_of_lt unsigned]
  simp [ofMagnitudeBits]

theorem nearest_toNat_le (num den : Nat) : (nearest num den).bits.toNat ≤ infiniteBits := by
  unfold nearest
  simp only
  split
  · rename_i finite
    rw [ofMagnitudeBits_toNat (Nat.lt_trans finite (by decide))]
    exact Nat.le_of_lt finite
  · exact Nat.le_of_eq (ofMagnitudeBits_toNat (by decide))

theorem stepsInOne_pos : 0 < stepsInOne := by
  unfold stepsInOne
  rw [Nat.one_shiftLeft]
  exact Nat.two_pow_pos 1074

theorem steps_one : one.steps = stepsInOne := by
  -- Stated of any place, since the powers themselves are too large to be computed.
  have parts {s k : Nat} (leading : s = 1 <<< 52) (place : 52 + k = 1074) :
      s <<< k = stepsInOne := by
    rw [leading, ← Nat.shiftLeft_add, place, stepsInOne]
  unfold steps
  exact parts (by decide) (by decide)

theorem exponentBit_le_significand {x : Double} (normal : 0 < x.shift) :
    exponentBit ≤ x.significand := by
  have parts := x.significand_add_shift
  unfold shift exponentBit at *
  omega

theorem unit_pos {den : Nat} (pos : 0 < den) (k : Nat) : 0 < den <<< k := by
  rw [Nat.shiftLeft_eq]
  exact Nat.mul_pos pos (Nat.two_pow_pos k)

/-- The shift that a fraction is rounded at leaves at most 53 bits before the point, and exactly as
many if it is not zero. -/
theorem shift_bounds {steps den : Nat} (pos : 0 < den) {k : Nat}
    (shifted : (steps / den).log2 - 52 = k) :
    steps < 2 * exponentBit * (den <<< k) ∧ (0 < k → exponentBit * (den <<< k) ≤ steps) := by
  have below : steps / den < 2 ^ ((steps / den).log2 + 1) := Nat.lt_log2_self
  have scale (places : Nat) : 2 ^ (k + places) * den = 2 ^ places * (den <<< k) := by
    rw [Nat.shiftLeft_eq]
    ring
  constructor
  · have most : steps / den < 2 ^ (k + 53) :=
      Nat.lt_of_lt_of_le below (Nat.pow_le_pow_right (by decide) (by omega))
    calc steps < 2 ^ (k + 53) * den := (Nat.div_lt_iff_lt_mul pos).mp most
      _ = 2 * exponentBit * (den <<< k) := scale 53
  · intro normal
    have log : (steps / den).log2 = k + 52 := by omega
    have nonzero : steps / den ≠ 0 := by
      intro zero
      simp [zero] at log
    have least : 2 ^ (k + 52) ≤ steps / den := by
      rw [← log]
      exact Nat.log2_self_le nonzero
    calc exponentBit * (den <<< k) = 2 ^ (k + 52) * den := (scale 52).symm
      _ ≤ steps := (Nat.le_div_iff_mul_le pos).mp least

/-- The fraction `steps / den` of finest steps is within half a unit of the double, and just below a
power of two within a quarter. At the halfway points the significand is even. -/
structure Within (x : Double) (steps den : Nat) : Prop where
  low : 2 * (x.significand * (den <<< x.shift)) ≤ 2 * steps + den <<< x.shift
  high : 2 * steps ≤ 2 * (x.significand * (den <<< x.shift)) + den <<< x.shift
  tie : 2 * (x.significand * (den <<< x.shift)) = 2 * steps + den <<< x.shift ∨
    2 * steps = 2 * (x.significand * (den <<< x.shift)) + den <<< x.shift →
      x.significand % 2 = 0
  power : x.significand = exponentBit → 0 < x.shift →
    4 * (x.significand * (den <<< x.shift)) ≤ 4 * steps + den <<< x.shift

theorem within_of_holds {x : Double} {steps den : Nat} (pos : 0 < den)
    (h : x.interval.holds (4 * steps) den = true) : x.Within steps den := by
  have unit := unit_pos pos x.shift
  have scale (n : Nat) : n * 1 <<< x.shift * den = n * (den <<< x.shift) := by
    rw [Nat.one_shiftLeft, Nat.shiftLeft_eq, Nat.mul_assoc, Nat.mul_comm den]
  have four : 4 * x.significand * (den <<< x.shift) =
      4 * (x.significand * (den <<< x.shift)) := Nat.mul_assoc ..
  unfold interval Interval.holds at h
  simp only [apply_ite (· * den), scale, Nat.sub_mul, Nat.add_mul, four] at h
  split at h
  · rename_i closed
    have even : x.significand % 2 = 0 := of_decide_eq_true closed
    split at h <;> simp only [Bool.and_eq_true, decide_eq_true_eq] at h <;>
      exact ⟨by omega, by omega, fun _ => even, by omega⟩
  · -- An open interval has no halfway points.
    split at h <;> simp only [Bool.and_eq_true, decide_eq_true_eq] at h <;>
      exact ⟨by omega, by omega, by omega, by omega⟩

/-- A unit at a place is at least two at any lower one, and at least four unless it is the next. -/
theorem unit_le {den low high : Nat} (lower : low < high) :
    2 * (den <<< low) ≤ den <<< high ∧ (high = low + 1 ∨ 4 * (den <<< low) ≤ den <<< high) := by
  have grow {places : Nat} (h : low + places ≤ high) :
      2 ^ places * (den <<< low) ≤ den <<< high := by
    rw [Nat.shiftLeft_eq, Nat.shiftLeft_eq]
    calc 2 ^ places * (den * 2 ^ low) = den * 2 ^ (low + places) := by ring
      _ ≤ den * 2 ^ high := Nat.mul_le_mul_left den (Nat.pow_le_pow_right (by decide) h)
  refine ⟨@grow 1 lower, ?_⟩
  rcases Nat.eq_or_lt_of_le (Nat.succ_le_of_lt lower) with next | further
  · exact .inl next.symm
  · exact .inr (@grow 2 further)

/-- A fraction that close to a double is read as that double. -/
theorem nearestBits_of_within {x : Double} {steps den : Nat} (pos : 0 < den)
    (h : x.Within steps den) : nearestBits steps den = x.magnitudeBits := by
  obtain ⟨k, shifted⟩ : ∃ k, (steps / den).log2 - 52 = k := ⟨_, rfl⟩
  obtain ⟨below, above⟩ := shift_bounds pos shifted
  have unit := unit_pos pos k
  have parts := x.significand_add_shift
  have small := x.significand_lt
  unfold nearestBits
  simp only [shifted]
  rcases Nat.lt_trichotomy k x.shift with finer | same | coarser
  · -- Only just below a power of two is the fraction rounded at a finer place, and there it rounds
    -- up to the power.
    have normal : 0 < x.shift := Nat.lt_of_le_of_lt (Nat.zero_le k) finer
    have least := exponentBit_le_significand normal
    obtain ⟨double, further⟩ := @unit_le den _ _ finer
    have power : x.significand = exponentBit := by
      rcases Nat.eq_or_lt_of_le least with power | more
      · exact power.symm
      · have far := Nat.mul_le_mul_right (den <<< x.shift) more
        have low := h.low
        unfold exponentBit at *
        omega
    have low := h.power power normal
    rw [power] at low parts
    unfold exponentBit at low parts below ⊢
    have next : x.shift = k + 1 := further.resolve_right (by omega)
    have twice : den <<< x.shift = 2 * (den <<< k) := by
      rw [next, Nat.shiftLeft_succ]
    rw [twice] at low
    rw [@roundHalfEven_eq _ _ (2 * 0x10000000000000) unit (by omega) (by omega) fun _ => rfl]
    omega
  · rw [same] at unit ⊢
    rw [roundHalfEven_eq unit h.low h.high h.tie, Nat.add_comm]
    exact parts
  · -- At a coarser place the fraction would be too large.
    have least := above (Nat.lt_of_le_of_lt (Nat.zero_le _) coarser)
    have double := (@unit_le den _ _ coarser).1
    have most := Nat.mul_le_mul_right (den <<< x.shift) (Nat.le_sub_one_of_lt small)
    have high := h.high
    unfold exponentBit at least most
    generalize den <<< x.shift = fine at *
    generalize den <<< k = coarse at *
    omega

theorem nearest_of_holds {x : Double} {num den : Nat} (finite : x.isFinite = true)
    (unsigned : x.bits.toNat < signBit) (pos : 0 < den)
    (h : x.interval.holds (4 * (num * stepsInOne)) den = true) : nearest num den = x := by
  have bits := nearestBits_of_within pos (within_of_holds pos h)
  unfold nearest
  simp only [bits]
  rw [if_pos (isFinite_iff.mp finite), ofMagnitudeBits_eq unsigned]

end Double

end SymbolicCalculus
