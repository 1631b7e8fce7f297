import ShaderTint.Decimal.Basic
import ShaderTint.Decimal.Shortest

namespace ShaderTint.Decimal

/-!
# Writing a binary number

The digits of a number are the shortest that read back. Where the point goes,
and when an exponent is written instead of zeros, is a matter of layout.
-/

/-- How a number is laid out. -/
structure Layout where
  /-- Numbers are written in full down to this many zeros after the point. -/
  leadingZeros : Nat
  /-- Numbers are written in full up to this many digits before the point. -/
  wholeDigits : Nat
  deriving DecidableEq

/-- An exponent, always with its sign and without leading zeros. -/
def exponentText
    (exponent : Int) :
    List Char :=
  let sign := if exponent < 0 then '-' else '+'
  sign :: Nat.toDigits 10 exponent.natAbs

/-- Lay out digits whose point stands after the first `point` of them. -/
def Layout.place
    (layout : Layout)
    (digits : List Char)
    (point : Int) :
    List Char :=
  if digits.length ≤ point ∧ point ≤ layout.wholeDigits then
    digits ++ List.replicate (point.toNat - digits.length) '0' ++ ['.', '0']
  else if 0 < point ∧ point ≤ layout.wholeDigits then
    digits.take point.toNat ++ '.' :: digits.drop point.toNat
  else if -(layout.leadingZeros : Int) ≤ point ∧ point ≤ 0 then
    '0' :: '.' :: List.replicate (-point).toNat '0' ++ digits
  else
    let fraction := digits.drop 1
    digits.take 1 ++
      (if fraction.isEmpty then [] else '.' :: fraction) ++
      'e' :: exponentText (point - 1)

/-- The text of a finite number that is not negative. -/
def Layout.magnitude
    (layout : Layout)
    (value : Float) :
    List Char :=
  if value == 0 then
    ['0', '.', '0']
  else
    let digits :=
      (shortest (BinaryValue.ofBits value.toBits)).trim mostDigits
    let characters := Nat.toDigits 10 digits.value
    layout.place characters (characters.length + digits.exponent)

/-- The text of a decimal that is read as a binary number. -/
def Layout.text
    (layout : Layout)
    (decimal : Decimal) :
    String :=
  let sign := if decimal.negative then ['-'] else []
  String.ofList (sign ++ layout.magnitude (decimal.magnitude?.getD 0))

end ShaderTint.Decimal
