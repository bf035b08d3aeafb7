/-!
# Binary floating-point numbers of 64 bits

A number is kept as its bits, so that two of them are equal exactly when they are
the same, whatever arithmetic would say of signed zeros and of not-a-numbers.
`Binary64.magnitude?` takes the bits apart: a finite number is, up to its sign,
`mantissa * 2 ^ exponent`.
-/

namespace TimedGraph

/-- A binary floating-point number, by its bits. -/
structure Binary64 where
  /-- Sign, biased exponent and fraction, from the highest bit down. -/
  bits : UInt64
  deriving DecidableEq

/-- The magnitude of a finite number, `mantissa * 2 ^ exponent`. -/
structure Magnitude where
  mantissa : Nat
  exponent : Int
  /-- Whether the gap to the number below is only half the gap to the number above. -/
  narrowBelow : Bool
  deriving DecidableEq

namespace Binary64

/-- Whether the sign bit is set. -/
def isNegative (number : Binary64) : Bool :=
  0x8000000000000000 ≤ number.bits.toNat

/-- The exponent field. -/
def exponentField (number : Binary64) : Nat :=
  number.bits.toNat / 0x10000000000000 % 0x800

/-- The fraction field. -/
def fractionField (number : Binary64) : Nat :=
  number.bits.toNat % 0x10000000000000

/-- Whether the bits stand for no number at all. -/
def isNaN (number : Binary64) : Bool :=
  number.exponentField = 0x7FF ∧ number.fractionField ≠ 0

/-- The magnitude, unless the number is infinite or none. -/
def magnitude? (number : Binary64) : Option Magnitude :=
  if number.exponentField = 0x7FF then
    none
  else if number.exponentField = 0 then
    some ⟨number.fractionField, -1074, false⟩
  else
    some ⟨0x10000000000000 + number.fractionField, (number.exponentField : Int) - 1075,
      number.fractionField = 0 ∧ 1 < number.exponentField⟩

/-- The number nearest to an integer. -/
def ofInt (value : Int) : Binary64 :=
  let magnitude := (UInt64.ofNat value.natAbs).toFloat
  ⟨(if value < 0 then -magnitude else magnitude).toBits⟩

end Binary64

end TimedGraph
