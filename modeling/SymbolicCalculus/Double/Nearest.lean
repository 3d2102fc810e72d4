import SymbolicCalculus.Double.Basic

/-!
The double nearest to an exact fraction. A fraction halfway between two doubles goes to the one
whose significand is even, and one from `2 ^ 1024 - 2 ^ 970` on is infinite.
-/

set_option autoImplicit false

namespace SymbolicCalculus

/-- The quotient `a / b` rounded to the nearest whole number, halves to the even one. -/
def roundHalfEven (a b : Nat) : Nat :=
  let quotient := a / b
  let rest := a % b
  if b < 2 * rest ∨ (2 * rest = b ∧ quotient % 2 = 1) then quotient + 1 else quotient

namespace Double

/-- The magnitude bits of the double nearest to `steps / den` finest steps. Doubles of the same
exponent are `2 ^ shift` steps apart. A significand that rounds up to `2 ^ 53` carries into the
exponent by itself. -/
def nearestBits (steps den : Nat) : Nat :=
  let shift := (steps / den).log2 - 52
  shift * exponentBit + roundHalfEven steps (den <<< shift)

/-- The nonnegative double nearest to `num / den`. -/
def nearest (num den : Nat) : Double :=
  let n := nearestBits (num * stepsInOne) den
  ofMagnitudeBits false (if n < infiniteBits then n else infiniteBits)

def ofInt (n : Int) : Double :=
  ofMagnitudeBits (n < 0) (nearest n.natAbs 1).magnitudeBits

end Double

end SymbolicCalculus
