namespace ShaderTint.Decimal

/-!
# Shortest decimal digits

A binary number stands for an interval of reals: all that round to it. The
shortest decimal is the one with the fewest digits in that interval, and of
several the nearest. The search is exact: for each number of digits, the two
neighbours of the value on that decimal grid are tested in whole numbers.
-/

/-- A positive binary number `mantissa * 2 ^ exponent` and its neighbourhood. -/
structure BinaryValue where
  mantissa : Nat
  exponent : Int
  /-- The number below is only half as far away as the number above. -/
  atBoundary : Bool

/-- Take a positive finite binary number apart. -/
def BinaryValue.ofBits
    (bits : UInt64) :
    BinaryValue :=
  let fraction : Nat := bits.toNat % Nat.pow 2 52
  let biased : Nat := bits.toNat / Nat.pow 2 52 % Nat.pow 2 11
  if biased = 0 then
    { mantissa := fraction, exponent := -1074, atBoundary := false }
  else
    {
      mantissa := fraction + Nat.pow 2 52
      exponent := (biased : Int) - 1075
      atBoundary := fraction = 0 && 1 < biased
    }

/-- Digits before an implied point, with the power of ten of the last digit. -/
structure Digits where
  value : Nat
  exponent : Int

/-- Number of decimal digits. -/
def digitCount
    (value : Nat) :
    Nat :=
  (Nat.toDigits 10 value).length

/-- The largest power of ten that is at most a positive ratio. -/
def ratioLog
    (numerator denominator : Nat) :
    Int :=
  if denominator ≤ numerator then
    (digitCount (numerator / denominator) : Int) - 1
  else
    -(digitCount ((denominator - 1) / numerator) : Int)

/-- A value, the ends of its interval, and the unit in which all three count. -/
structure Interval where
  low : Nat
  value : Nat
  high : Nat
  denominator : Nat
  closed : Bool

/-- The interval of reals that round to a binary number. -/
def BinaryValue.interval
    (binary : BinaryValue) :
    Interval :=
  let scale := Nat.pow 2 (binary.exponent - 2).toNat
  let low :=
    if binary.atBoundary then
      4 * binary.mantissa - 1
    else
      4 * binary.mantissa - 2
  {
    low := low * scale
    value := 4 * binary.mantissa * scale
    high := (4 * binary.mantissa + 2) * scale
    denominator := Nat.pow 2 (2 - binary.exponent).toNat
    closed := binary.mantissa % 2 = 0
  }

namespace Interval

/-- The interval counted in units of `10 ^ exponent`. -/
def rescale
    (interval : Interval)
    (exponent : Int) :
    Interval :=
  let up := Nat.pow 10 (-exponent).toNat
  {
    low := interval.low * up
    value := interval.value * up
    high := interval.high * up
    denominator := interval.denominator * Nat.pow 10 exponent.toNat
    closed := interval.closed
  }

/-- Does a whole number of units lie in the interval? -/
def holds
    (interval : Interval)
    (units : Nat) :
    Bool :=
  let scaled := units * interval.denominator
  if interval.closed then
    interval.low ≤ scaled && scaled ≤ interval.high
  else
    interval.low < scaled && scaled < interval.high

/-- Whichever neighbour of the value lies in the interval, the nearer of two. -/
def nearestUnits?
    (interval : Interval) :
    Option Nat :=
  let below := interval.value / interval.denominator
  let above := below + 1
  match interval.holds below, interval.holds above with
  | true, true =>
      let twice := 2 * interval.value
      let middle := (below + above) * interval.denominator
      if twice < middle || (twice = middle && below % 2 = 0) then
        some below
      else
        some above
  | true, false => some below
  | false, true => some above
  | false, false => none

end Interval

/-- Most digits that a binary number needs. -/
def mostDigits : Nat := 17

/-- The shortest decimal among those of `count` or more digits. -/
def searchDigits
    (interval : Interval)
    (log : Int) :
    (remaining : Nat) → (count : Nat) → Digits
  | 0, _ => { value := 0, exponent := 0 }
  | remaining + 1, count =>
      let exponent := log - count + 1
      match (interval.rescale exponent).nearestUnits? with
      | some value => { value := value, exponent := exponent }
      | none => searchDigits interval log remaining (count + 1)

/-- The shortest decimal that rounds to a positive binary number. -/
def shortest
    (binary : BinaryValue) :
    Digits :=
  let interval := binary.interval
  searchDigits interval
    (ratioLog interval.value interval.denominator) mostDigits 1

/-- Move the zeros at the end of the digits into the exponent. -/
def Digits.trim
    (digits : Digits) :
    (fuel : Nat) → Digits
  | 0 => digits
  | fuel + 1 =>
      if digits.value % 10 = 0 && digits.value != 0 then
        Digits.trim
          { value := digits.value / 10, exponent := digits.exponent + 1 } fuel
      else
        digits

end ShaderTint.Decimal
