import SymbolicCalculus.Double.Shortest
import SymbolicCalculus.Refusal

/-! The numbers and variables that expressions are made of. -/

set_option autoImplicit false

namespace SymbolicCalculus

/-- A double that is finite, not below zero and not `-0.0`: its sign bit is clear. -/
structure Number where
  value : Double
  bits_lt : value.bits.toNat < Double.infiniteBits
  deriving DecidableEq, Repr

namespace Number

def zero : Number := ⟨.zero, by decide⟩

def one : Number := ⟨.one, by decide⟩

theorem bits_lt_of_not_isNegative {x : Double} (finite : x.isFinite = true)
    (notNegative : ¬x.isNegative = true) (notZero : ¬x.isZero = true) :
    x.bits.toNat < Double.infiniteBits := by
  have unsigned : ¬x.isSigned = true := by
    simpa [Double.isNegative, notZero, Double.isNaN_eq_false_of_isFinite finite] using notNegative
  rw [Double.isSigned_iff] at unsigned
  rwa [Double.isFinite_iff, Double.magnitudeBits_eq_of_lt (by omega)] at finite

/-- Accepts what is finite and not below zero. Both zeros become the positive one. -/
def ofDouble (x : Double) : Except Refusal Number :=
  if finite : x.isFinite then
    if negative : x.isNegative then .error (.negativeNumber x)
    else if isZero : x.isZero then .ok zero
    else .ok ⟨x, bits_lt_of_not_isNegative finite negative isZero⟩
  else .error (.nonFiniteNumber x)

/-- The text of a number, always with a point: a whole number in full, and any other in the fewest
digits that read back. -/
def text (n : Number) : String :=
  if n.value.isWhole then
    String.ofList (Nat.toDigits 10 (n.value.steps / Double.stepsInOne) ++ ['.', '0'])
  else String.ofList n.value.shortest.positional

end Number

/-- A name that is a nonempty run of the letters a-z and A-Z. -/
structure Variable where
  name : String
  valid : name.isEmpty = false ∧ name.toList.all Char.isAlpha = true
  deriving DecidableEq, Repr

namespace Variable

def isName (name : String) : Bool := !name.isEmpty && name.toList.all Char.isAlpha

def ofName (name : String) : Except Refusal Variable :=
  if h : isName name then .ok ⟨name, by simpa [isName] using h⟩
  else .error (.variableName name)

end Variable

inductive Atom where
  | number (value : Number)
  | var (variable_ : Variable)
  deriving DecidableEq, Repr

namespace Atom

def text : Atom → String
  | number value => value.text
  | var v => v.name

/-- Equality with numbers compared as values. -/
def same : Atom → Atom → Bool
  | number value, number value' => value.value.sameValue value'.value
  | var v, var v' => v.name == v'.name
  | _, _ => false

end Atom

end SymbolicCalculus
