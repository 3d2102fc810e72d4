/-!
Binary floating-point numbers of 64 bits, by their bit patterns. The magnitude of a finite one is
a natural number of steps of `2 ^ -1074`, the least positive double, so that all arithmetic on
values is exact arithmetic on `Nat`.
-/

set_option autoImplicit false

namespace SymbolicCalculus

/-- A 64-bit floating-point number: a sign bit, 11 bits of exponent and 52 bits of fraction. -/
structure Double where
  bits : UInt64
  deriving DecidableEq, Repr

namespace Double

/-- The weight of the sign bit, `2 ^ 63`. -/
def signBit : Nat := 0x8000000000000000

/-- The weight of the lowest bit of the exponent, `2 ^ 52`. -/
def exponentBit : Nat := 0x10000000000000

/-- The bits below the sign. Larger magnitudes have larger numbers here. -/
def magnitudeBits (x : Double) : Nat := x.bits.toNat % signBit

/-- The magnitude bits of the infinities; NaNs lie above. -/
def infiniteBits : Nat := 0x7ff * exponentBit

def isSigned (x : Double) : Bool := signBit ≤ x.bits.toNat

def isFinite (x : Double) : Bool := x.magnitudeBits < infiniteBits

def isNaN (x : Double) : Bool := infiniteBits < x.magnitudeBits

def isZero (x : Double) : Bool := x.magnitudeBits == 0

/-- Below zero as a value, which `-0.0` is not. -/
def isNegative (x : Double) : Bool := x.isSigned && !x.isZero && !x.isNaN

/-- Equality of values: a NaN differs from everything, and the two zeros are equal. -/
def sameValue (x y : Double) : Bool :=
  !x.isNaN && !y.isNaN && (x.bits == y.bits || (x.isZero && y.isZero))

/-- The number of binary places that the significand is shifted up from the finest step. -/
def shift (x : Double) : Nat := x.magnitudeBits / exponentBit - 1

/-- The magnitude in units of `2 ^ shift` steps: the fraction, with the leading one if normal. -/
def significand (x : Double) : Nat := x.magnitudeBits - x.shift * exponentBit

/-- The magnitude of a finite double, in steps of `2 ^ -1074`. -/
def steps (x : Double) : Nat := x.significand <<< x.shift

/-- The number of finest steps in one. -/
def stepsInOne : Nat := 1 <<< 1074

/-- Is a finite double a whole number? -/
def isWhole (x : Double) : Bool := x.steps % stepsInOne == 0

/-- The double of the given sign whose other bits are `n`. -/
def ofMagnitudeBits (signed : Bool) (n : Nat) : Double :=
  ⟨UInt64.ofNat (n + if signed then signBit else 0)⟩

def zero : Double := ⟨0⟩

def one : Double := ⟨0x3ff0000000000000⟩

theorem isFinite_iff {x : Double} : x.isFinite = true ↔ x.magnitudeBits < infiniteBits := by
  simp [isFinite]

theorem isNaN_iff {x : Double} : x.isNaN = true ↔ infiniteBits < x.magnitudeBits := by
  simp [isNaN]

theorem isZero_iff {x : Double} : x.isZero = true ↔ x.magnitudeBits = 0 := by
  simp [isZero]

theorem isSigned_iff {x : Double} : x.isSigned = true ↔ signBit ≤ x.bits.toNat := by
  simp [isSigned]

theorem isNaN_eq_false_of_isFinite {x : Double} (h : x.isFinite = true) : x.isNaN = false := by
  rw [isFinite_iff] at h
  rw [Bool.eq_false_iff, ne_eq, isNaN_iff]
  omega

theorem magnitudeBits_eq_of_lt {x : Double} (h : x.bits.toNat < signBit) :
    x.magnitudeBits = x.bits.toNat := Nat.mod_eq_of_lt h

theorem shift_mul_le_magnitudeBits (x : Double) : x.shift * exponentBit ≤ x.magnitudeBits := by
  have := Nat.div_mul_le_self x.magnitudeBits exponentBit
  simp only [shift, Nat.sub_mul]
  omega

theorem significand_add_shift (x : Double) :
    x.significand + x.shift * exponentBit = x.magnitudeBits := by
  have := x.shift_mul_le_magnitudeBits
  unfold significand
  omega

theorem significand_lt (x : Double) : x.significand < 2 * exponentBit := by
  unfold significand shift exponentBit
  omega

end Double

end SymbolicCalculus
