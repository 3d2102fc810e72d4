import SymbolicCalculus.Proofs.Double.Numeral

/-!
When the double nearest to a fraction is infinite. It is from `2 ^ 1024 - 2 ^ 970` on, halfway
between the largest finite double and the next power of two. So a numeral that overflows still does
when it goes on.
-/

set_option autoImplicit false

namespace SymbolicCalculus

/-- A quotient is rounded to less than an even number if it is below the half in front of it. The
half itself goes to the even number. -/
theorem roundHalfEven_lt_iff {a b n : Nat} (pos : 0 < b) (even : n % 2 = 0) :
    roundHalfEven a b < n ↔ 2 * a + b < 2 * (n * b) := by
  have split : b * (a / b) + a % b = a := Nat.div_add_mod a b
  have less : a % b < b := Nat.mod_lt a pos
  unfold roundHalfEven
  simp only
  generalize a / b = quotient at *
  rw [Nat.mul_comm b] at split
  rcases Nat.lt_trichotomy (quotient + 1) n with below | rfl | above
  · have far : (quotient + 2) * b ≤ n * b := Nat.mul_le_mul_right b below
    rw [Nat.add_mul] at far
    constructor
    · intro _
      omega
    · intro _
      split <;> omega
  · rw [Nat.succ_mul quotient]
    split <;> omega
  · have far : n * b ≤ quotient * b := Nat.mul_le_mul_right b (Nat.le_of_lt_succ above)
    constructor
    · split <;> omega
    · omega

namespace Double

theorem isFinite_nearest (num den : Nat) :
    (nearest num den).isFinite = true ↔ nearestBits (num * stepsInOne) den < infiniteBits := by
  have small := nearest_toNat_le num den
  rw [isFinite_iff, magnitudeBits_eq_of_lt (Nat.lt_of_le_of_lt small (by decide))]
  unfold nearest
  simp only
  split
  · rename_i finite
    rw [ofMagnitudeBits_toNat (Nat.lt_trans finite (by decide))]
  · rename_i infinite
    rw [ofMagnitudeBits_toNat (by decide)]
    simp [infinite]

/-- At the largest shift of finite doubles, the fractions that become finite are more than half a
unit below the power of two that is too large. -/
theorem nearestBits_lt_infiniteBits {steps den last : Nat} (pos : 0 < den)
    (largest : (last + 2) * exponentBit = infiniteBits) :
    nearestBits steps den < infiniteBits ↔
      2 * steps + den <<< last < 4 * exponentBit * (den <<< last) := by
  obtain ⟨k, shifted⟩ : ∃ k, (steps / den).log2 - 52 = k := ⟨_, rfl⟩
  obtain ⟨below, above⟩ := shift_bounds pos shifted
  have unit := unit_pos pos k
  unfold nearestBits
  simp only [shifted, ← largest]
  simp only [exponentBit, Nat.reduceMul] at *
  rcases Nat.lt_trichotomy k last with finer | rfl | coarser
  · -- A significand that rounds up carries into an exponent that is still finite.
    have double := (@unit_le den _ _ finer).1
    generalize den <<< k = fine at *
    generalize den <<< last = coarse at *
    have most := (@roundHalfEven_lt_iff steps fine 0x30000000000000 unit rfl).mpr (by omega)
    constructor <;> intro _ <;> omega
  · generalize den <<< k = coarse at *
    have carries := @roundHalfEven_lt_iff steps coarse 0x20000000000000 unit rfl
    constructor
    · intro finite
      have := carries.mp (by omega)
      omega
    · intro _
      have := carries.mpr (by omega)
      omega
  · have double := (@unit_le den _ _ coarser).1
    have large := above (Nat.lt_of_le_of_lt (Nat.zero_le _) coarser)
    generalize den <<< k = coarse at *
    generalize den <<< last = fine at *
    have least := mt (@roundHalfEven_lt_iff steps coarse 0x10000000000000 unit rfl).mp (by omega)
    constructor <;> intro _ <;> omega

/-- Just the fractions from `2 ^ 1024 - 2 ^ 970` on become infinite. -/
theorem isFinite_nearest_iff {num den : Nat} (pos : 0 < den) :
    (nearest num den).isFinite = true ↔ num < (2 ^ 1024 - 2 ^ 970) * den := by
  -- The powers are too large to be computed, so they are only taken apart.
  have power {first second whole : Nat} (sum : first + second = whole) :
      2 ^ whole = 2 ^ first * 2 ^ second := by
    rw [← sum, Nat.pow_add]
  have shifted {first second whole : Nat} (sum : first + second = whole) (n : Nat) :
      n <<< whole = 2 ^ first * n * 2 ^ second := by
    rw [Nat.shiftLeft_eq, power sum]
    ring
  have unit : den <<< 2045 = 2 ^ 970 * den * 2 ^ 1075 :=
    @shifted 970 1075 2045 rfl den
  have next : 4 * exponentBit * (den <<< 2045) = 2 ^ 1024 * den * 2 ^ 1075 := by
    rw [unit, @power 54 970 1024 rfl, show 4 * exponentBit = 2 ^ 54 from rfl]
    simp only [Nat.mul_assoc]
  have twice : 2 * (num * stepsInOne) = num * 2 ^ 1075 := by
    have doubled {places whole : Nat} (sum : 1 + places = whole) : 2 * 1 <<< places = 2 ^ whole := by
      rw [Nat.one_shiftLeft, power sum, Nat.pow_one]
    rw [Nat.mul_left_comm, ← @doubled 1074 1075 rfl, stepsInOne]
  rw [isFinite_nearest, @nearestBits_lt_infiniteBits _ _ 2045 pos rfl, next, unit, twice,
    ← Nat.add_mul, Nat.mul_lt_mul_right (Nat.two_pow_pos 1075), Nat.sub_mul,
    Nat.lt_sub_iff_add_lt]

/-- Smaller fractions are finite as well. -/
theorem isFinite_nearest_of_le {num den num' den' : Nat} (pos : 0 < den) (pos' : 0 < den')
    (smaller : num' * den ≤ num * den') (h : (nearest num den).isFinite = true) :
    (nearest num' den').isFinite = true := by
  rw [isFinite_nearest_iff pos] at h
  rw [isFinite_nearest_iff pos']
  generalize 2 ^ 1024 - 2 ^ 970 = limit at *
  refine Nat.lt_of_mul_lt_mul_right (a := den) ?_
  calc num' * den ≤ num * den' := smaller
    _ < limit * den * den' := Nat.mul_lt_mul_of_pos_right h pos'
    _ = limit * den' * den := Nat.mul_right_comm ..

end Double

namespace Decimal

/-- The digits of a decimal are put over a power of ten. -/
theorem toDouble_eq_nearest (digits places : Nat) :
    toDouble ⟨digits, -places⟩ = Double.nearest digits (10 ^ places) := by
  simp [toDouble]

theorem isFinite_toDouble_of_le {digits digits' places places' : Nat}
    (smaller : digits' * 10 ^ places ≤ digits * 10 ^ places')
    (h : (toDouble ⟨digits, -places⟩).isFinite = true) :
    (toDouble ⟨digits', -places'⟩).isFinite = true := by
  rw [toDouble_eq_nearest] at h ⊢
  exact Double.isFinite_nearest_of_le (Nat.pow_pos (by decide)) (Nat.pow_pos (by decide)) smaller h

/-- Digits behind a number move it up by as many places. -/
theorem mul_pow_le_ofDigitChars (digits : List Char) (n : Nat) :
    n * 10 ^ digits.length ≤ Nat.ofDigitChars 10 digits n := by
  induction digits generalizing n with
  | nil => simp
  | cons c digits ih =>
    rw [Nat.ofDigitChars_cons, List.length_cons, Nat.pow_succ']
    calc n * (10 * 10 ^ digits.length) = 10 * n * 10 ^ digits.length := by ring
      _ ≤ (10 * n + (c.toNat - '0'.toNat)) * 10 ^ digits.length :=
        Nat.mul_le_mul_right _ (Nat.le_add_right ..)
      _ ≤ _ := ih _

/-- With more digits, of which some may be behind the point, a decimal does not become smaller. -/
theorem isFinite_toDouble_of_digits {text more : List Char} {places places' : Nat}
    (few : places ≤ places' + more.length)
    (h : (toDouble ⟨Nat.ofDigitChars 10 (text ++ more) 0, -places⟩).isFinite = true) :
    (toDouble ⟨Nat.ofDigitChars 10 text 0, -places'⟩).isFinite = true := by
  refine isFinite_toDouble_of_le ?_ h
  rw [Nat.ofDigitChars_append]
  generalize Nat.ofDigitChars 10 text 0 = n
  calc n * 10 ^ places ≤ n * 10 ^ (places' + more.length) :=
        Nat.mul_le_mul_left n (Nat.pow_le_pow_right (by decide) few)
    _ = n * 10 ^ more.length * 10 ^ places' := by ring
    _ ≤ Nat.ofDigitChars 10 more n * 10 ^ places' :=
      Nat.mul_le_mul_right _ (mul_pow_le_ofDigitChars more n)

/-- What goes on to a finite numeral is finite. -/
theorem isFinite_of_append {text more : List Char}
    (h : (ofChars (text ++ more)).toDouble.isFinite = true) :
    (ofChars text).toDouble.isFinite = true := by
  by_cases point : '.' ∈ text
  · obtain ⟨whole, fraction, rfl, pointless⟩ := List.eq_append_cons_of_mem point
    have longer : whole ++ '.' :: fraction ++ more = whole ++ '.' :: (fraction ++ more) := by simp
    rw [longer, ofChars_point pointless, ← List.append_assoc] at h
    rw [ofChars_point pointless]
    exact isFinite_toDouble_of_digits (Nat.le_of_eq List.length_append) h
  · rw [ofChars_whole point]
    by_cases point' : '.' ∈ more
    · obtain ⟨whole, fraction, rfl, pointless⟩ := List.eq_append_cons_of_mem point'
      have longer : '.' ∉ text ++ whole := by simp [point, pointless]
      rw [← List.append_assoc, ofChars_point longer, List.append_assoc] at h
      exact @isFinite_toDouble_of_digits _ _ _ 0 (by simp) h
    · have longer : '.' ∉ text ++ more := by simp [point, point']
      rw [ofChars_whole longer] at h
      exact @isFinite_toDouble_of_digits _ _ 0 0 (Nat.zero_le _) h

/-- A zero behind a point changes nothing. -/
theorem isFinite_append_zero {text : List Char} (pointless : '.' ∉ text)
    (h : (ofChars text).toDouble.isFinite = true) :
    (ofChars (text ++ ['.', '0'])).toDouble.isFinite = true := by
  rw [ofChars_whole pointless] at h
  rw [ofChars_point pointless, Nat.ofDigitChars_append]
  refine @isFinite_toDouble_of_le _ _ 0 _ ?_ h
  simp [Nat.ofDigitChars_cons, Nat.mul_comm]

end Decimal

end SymbolicCalculus
