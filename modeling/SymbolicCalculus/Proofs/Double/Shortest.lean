import SymbolicCalculus.Proofs.Double.Nearest

/-!
The decimal of fewest digits reads back. The search only stops at points of the interval, and what
it ends with is the double itself.
-/

set_option autoImplicit false

namespace SymbolicCalculus

namespace Double

/-- A decimal lies in an interval. -/
def Interval.Contains (i : Interval) (d : Decimal) : Prop :=
  i.holds (4 * (d.digits * Nat.pow 10 d.exponent.toNat * stepsInOne))
    (Nat.pow 10 (-d.exponent).toNat) = true

theorem toDouble_of_contains {x : Double} {d : Decimal} (finite : x.isFinite = true)
    (unsigned : x.bits.toNat < signBit) (h : x.interval.Contains d) : d.toDouble = x := by
  unfold Decimal.toDouble
  exact nearest_of_holds finite unsigned (Nat.pow_pos (by decide)) h

theorem contains_of_gridPoint? {i : Interval} {exponent : Int} {digits : Nat}
    (h : i.gridPoint? exponent = some digits) : i.Contains ⟨digits, exponent⟩ := by
  have quarters : 4 * (digits * Nat.pow 10 exponent.toNat * stepsInOne) =
      digits * (quartersInOne * Nat.pow 10 exponent.toNat) := by
    unfold quartersInOne
    -- The number of steps in one is too large to be looked into.
    generalize stepsInOne = one
    ac_rfl
  unfold Interval.Contains
  rw [quarters]
  unfold Interval.gridPoint? at h
  simp only at h
  split at h
  · rename_i below above
    split at h <;> cases h
    · exact above
    · exact below
  · rename_i below _
    cases h
    exact below
  · rename_i above
    cases h
    exact above
  · cases h

theorem contains_search {i : Interval} {last : Decimal} (h : i.Contains last) (count : Nat) :
    i.Contains (i.search last count) := by
  induction count with
  | zero => exact h
  | succ count ih =>
    unfold Interval.search
    simp only
    split
    · rename_i found
      exact contains_of_gridPoint? found
    · exact ih

theorem holds_middle (x : Double) {den : Nat} (pos : 0 < den) :
    x.interval.holds (4 * (x.steps * den)) den = true := by
  have unit : 0 < 1 <<< x.shift * den := Nat.mul_pos (unit_pos Nat.one_pos x.shift) pos
  have middle : 4 * (x.steps * den) = 4 * x.significand * (1 <<< x.shift * den) := by
    rw [steps, Nat.shiftLeft_eq, Nat.one_shiftLeft]
    ac_rfl
  unfold interval Interval.holds
  simp only [middle, apply_ite (· * den), Nat.mul_assoc _ (1 <<< x.shift)]
  -- Both ends are some quarters away, so it does not matter whether they belong to the interval.
  split
  · simp only [Bool.and_eq_true, decide_eq_true_eq]
    constructor
    · split <;> exact Nat.mul_le_mul_right _ (by omega)
    · exact Nat.mul_le_mul_right _ (by omega)
  · rename_i isOpen
    have odd : x.significand % 2 ≠ 0 := by simpa using isOpen
    simp only [Bool.and_eq_true, decide_eq_true_eq]
    constructor
    · split <;> exact Nat.mul_lt_mul_of_pos_right (by omega) unit
    · exact Nat.mul_lt_mul_of_pos_right (by omega) unit

/-- Enough decimal places take in all binary ones. -/
theorem stepsInOne_dvd (x : Double) : stepsInOne ∣ x.steps * Nat.pow 10 (1074 - x.shift) := by
  have enough (n : Nat) : 1 <<< n ∣ x.steps * Nat.pow 10 (n - x.shift) := by
    have tens : Nat.pow 10 (n - x.shift) = 2 ^ (n - x.shift) * 5 ^ (n - x.shift) :=
      Nat.mul_pow 2 5 _
    have split : x.steps * Nat.pow 10 (n - x.shift) =
        2 ^ (x.shift + (n - x.shift)) * (x.significand * 5 ^ (n - x.shift)) := by
      rw [tens, steps, Nat.shiftLeft_eq]
      ring
    rw [Nat.one_shiftLeft, split]
    exact Nat.dvd_mul_right_of_dvd (Nat.pow_dvd_pow 2 (by omega)) _
  exact enough 1074

theorem contains_exactDecimal (x : Double) : x.interval.Contains x.exactDecimal := by
  have whole := Nat.div_mul_cancel x.stepsInOne_dvd
  have up : (-((1074 - x.shift : Nat) : Int)).toNat = 0 := by omega
  have down : (- -((1074 - x.shift : Nat) : Int)).toNat = 1074 - x.shift := by omega
  have once : Nat.pow 10 0 = 1 := rfl
  have pos : 0 < Nat.pow 10 (1074 - x.shift) := Nat.pow_pos (by decide)
  unfold Interval.Contains exactDecimal
  simp only [up, down, once, Nat.mul_one, whole]
  exact x.holds_middle pos

theorem contains_shortest (x : Double) : x.interval.Contains x.shortest := by
  unfold shortest
  split
  · rename_i zero
    have significand : x.significand = 0 := by
      have parts := x.significand_add_shift
      rw [isZero_iff.mp zero] at parts
      omega
    have middle := x.holds_middle (Nat.one_pos)
    simpa [Interval.Contains, steps, significand] using middle
  · exact contains_search x.contains_exactDecimal _

/-- The shortest decimal reads back. -/
theorem toDouble_shortest {x : Double} (finite : x.isFinite = true)
    (unsigned : x.bits.toNat < signBit) : x.shortest.toDouble = x :=
  toDouble_of_contains finite unsigned x.contains_shortest

end Double

end SymbolicCalculus
