import SymbolicCalculus.Double.Decimal

/-!
The fewest decimal digits that read back as a given double, and the texts made of them. The reals
that round to a double form an interval, so the digits are a point of the coarsest decimal grid
that has one in it.
-/

set_option autoImplicit false

namespace SymbolicCalculus

namespace Double

/-- The reals that round to a double, in quarters of the finest step. -/
structure Interval where
  low : Nat
  middle : Nat
  high : Nat
  closed : Bool
  deriving DecidableEq, Repr

/-- Halfway to the neighbours on both sides. The neighbour below a power of two is only half as
far away. An end reads back as the double itself only if its significand is even. -/
def interval (x : Double) : Interval :=
  let s := x.significand
  let unit := 1 <<< x.shift
  { low := if s = exponentBit ∧ 0 < x.shift then (4 * s - 1) * unit else (4 * s - 2) * unit
    middle := 4 * s * unit
    high := (4 * s + 2) * unit
    closed := s % 2 = 0 }

def quartersInOne : Nat := 4 * stepsInOne

def Interval.holds (i : Interval) (a b : Nat) : Bool :=
  if i.closed then i.low * b ≤ a && a ≤ i.high * b else i.low * b < a && a < i.high * b

/-- The point of the grid `10 ^ exponent` in the interval, the one nearer to the middle if there
are two, and the larger of two that are equally near. Only the two neighbours of the middle can
be. -/
def Interval.gridPoint? (i : Interval) (exponent : Int) : Option Nat :=
  let up := quartersInOne * Nat.pow 10 exponent.toNat
  let down := Nat.pow 10 (-exponent).toNat
  let below := i.middle * down / up
  let above := below + 1
  -- The grid points are `below * up / down` and `above * up / down` quarters.
  match i.holds (below * up) down, i.holds (above * up) down with
  | true, true =>
    if above * up - i.middle * down ≤ i.middle * down - below * up then some above else some below
  | true, false => some below
  | false, true => some above
  | false, false => none

/-- Tries `count` grids, each ten times finer than the one before, and then `last`. -/
def Interval.search (i : Interval) (last : Decimal) : Nat → Decimal
  | 0 => last
  | count + 1 =>
    let exponent := last.exponent + (count + 1 : Nat)
    match i.gridPoint? exponent with
    | some digits => ⟨digits, exponent⟩
    | none => search i last count

/-- The double itself as a decimal. Below one the grid `10 ^ -places` is fine enough, where
`2 ^ -places` is the place of the last bit. -/
def exactDecimal (x : Double) : Decimal :=
  let places := 1074 - x.shift
  ⟨x.steps * Nat.pow 10 places / stepsInOne, -places⟩

/-- A power of ten that is above every point of the interval. Three binary places make less than
one decimal place, and four make more than one. -/
def topExponent (x : Double) : Int :=
  let place : Int := x.significand.log2 + 2 + x.shift - 1074
  if 0 ≤ place then place / 3 + 1 else place / 4 + 1

/-- The shortest decimal that reads back as the finite double. -/
def shortest (x : Double) : Decimal :=
  if x.isZero then ⟨0, 0⟩ else
    let last := x.exactDecimal
    x.interval.search last (x.topExponent - last.exponent).toNat

/-- The text of any double: the shortest digits that read back, without an exponent. -/
def text (x : Double) : String :=
  if x.isNaN then "NaN"
  else
    let sign := if x.isSigned then "-" else ""
    if x.isFinite then sign ++ String.ofList x.shortest.positional else sign ++ "inf"

end Double

end SymbolicCalculus
