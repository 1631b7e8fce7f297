namespace ShaderTint

/-!
# Decimal numerals

A decimal is a sign, a whole significand and a power of ten. Its binary value is
the significand, scaled by powers of ten that are themselves binary numbers;
each step rounds to nearest.
-/

/-- The number `± significand * 10 ^ exponent`. -/
structure Decimal where
  negative : Bool
  significand : Nat
  exponent : Int
  deriving DecidableEq

namespace Decimal

/-- The largest power of ten that a binary number holds. -/
def largestPower : Nat := 308

/-- A power of ten as a binary number. -/
def power
    (exponent : Nat) :
    Float :=
  Float.ofScientific 1 false exponent

/-- Divide by a power of ten, in steps of the largest power. -/
def scaleDown
    (value : Float)
    (exponent : Nat) :
    Float :=
  if exponent ≤ largestPower then
    value / power exponent
  else if value == 0 then
    value
  else
    scaleDown (value / power largestPower) (exponent - largestPower)
termination_by exponent
decreasing_by
  simp only [largestPower] at *
  omega

/-- The magnitude as a binary number, unless it is too large for one. -/
def magnitude?
    (decimal : Decimal) :
    Option Float :=
  let value := decimal.significand.toUInt64.toFloat
  match decimal.exponent with
  | .ofNat exponent =>
      if exponent ≤ largestPower then
        let scaled := value * power exponent
        if scaled.isInf then none else some scaled
      else if value == 0 then
        some value
      else
        none
  | .negSucc less => some (scaleDown value (less + 1))

end Decimal

end ShaderTint
