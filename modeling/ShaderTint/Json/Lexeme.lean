import ShaderTint.Json.Value

namespace ShaderTint.Json

/-!
# The words of JSON text

Blanks, literal words, string literals and numbers, read from the front of a
list of characters. A reader returns what it read and the rest of the text. It
fails in one of two ways: the text is wrong where it stands, or it ends where
more was wanted.
-/

/-- Why a text is not JSON. -/
inductive Flaw where
  /-- A character stands where it cannot. -/
  | malformed
  /-- The text ends too early. -/
  | truncated
  deriving DecidableEq

/-- The blanks that may stand between words. -/
def isBlank
    (character : Char) :
    Bool :=
  character == ' ' || character == '\n' ||
    character == '\t' || character == '\r'

/-- The text after its leading blanks. -/
def skipBlanks
    (text : List Char) :
    List Char :=
  text.dropWhile isBlank

/-- The flaw of a text that cannot go on as it does. -/
def flawAt : List Char → Flaw
  | [] => .truncated
  | _ :: _ => .malformed

/-- Read the characters of a word. -/
def expectWord : List Char → List Char → Except Flaw (List Char)
  | [], text => .ok text
  | _ :: _, [] => .error .truncated
  | wanted :: word, found :: text =>
      if wanted = found then expectWord word text else .error .malformed

/-! ## String literals -/

/-- The value of a hexadecimal digit. -/
def hexValue?
    (character : Char) :
    Option Nat :=
  let code := character.toNat
  if '0'.toNat ≤ code ∧ code ≤ '9'.toNat then
    some (code - '0'.toNat)
  else if 'a'.toNat ≤ code ∧ code ≤ 'f'.toNat then
    some (code - 'a'.toNat + 10)
  else if 'A'.toNat ≤ code ∧ code ≤ 'F'.toNat then
    some (code - 'A'.toNat + 10)
  else
    none

/-- A numbered escape wants four more bytes before it is looked at. -/
def hasFourBytes
    (text : List Char) :
    Bool :=
  4 ≤ (text.take 4).foldl (· + ·.utf8Size) 0

/-- The character that a one-letter escape stands for. -/
def letterEscape? : Char → Option Char
  | '"' => some '"'
  | '\\' => some '\\'
  | '/' => some '/'
  | 'b' => some '\x08'
  | 'f' => some '\x0c'
  | 'n' => some '\n'
  | 'r' => some '\r'
  | 't' => some '\t'
  | _ => none

/-- The first halves of surrogate pairs. -/
def isHighSurrogate
    (unit : Nat) :
    Bool :=
  0xd800 ≤ unit && unit ≤ 0xdbff

/-- The second halves of surrogate pairs. -/
def isLowSurrogate
    (unit : Nat) :
    Bool :=
  0xdc00 ≤ unit && unit ≤ 0xdfff

/-- The character of a surrogate pair. -/
def pairChar
    (high low : Nat) :
    Char :=
  Char.ofNat ((high - 0xd800) * 0x400 + (low - 0xdc00) + 0x10000)

/-- Where a reader stands inside a string literal. -/
inductive StringState where
  | plain
  /-- After a backslash. -/
  | escaped
  /-- Inside a numbered escape, perhaps the second of a pair. -/
  | numbered (high : Option Nat) (remaining value : Nat)
  /-- After the first half of a pair, before a backslash. -/
  | unpaired (high : Nat)
  /-- After the first half of a pair and a backslash. -/
  | unpairedEscaped (high : Nat)

/-- What a complete numbered escape leads to. -/
def closeEscape
    (high : Option Nat)
    (unit : Nat)
    (done : List Char) :
    Except Flaw (StringState × List Char) :=
  match high with
  | some high =>
      if isLowSurrogate unit then
        .ok (.plain, pairChar high unit :: done)
      else
        .error .malformed
  | none =>
      if isLowSurrogate unit then
        .error .malformed
      else if isHighSurrogate unit then
        .ok (.unpaired unit, done)
      else
        .ok (.plain, Char.ofNat unit :: done)

/-- Read on inside a string literal; `done` holds what was read, last first. -/
def stringRest :
    StringState → List Char → List Char → Except Flaw (String × List Char)
  | _, _, [] => .error .truncated
  | .plain, done, character :: text =>
      if character = '"' then
        .ok (String.ofList done.reverse, text)
      else if character = '\\' then
        stringRest .escaped done text
      else if character.toNat < 0x20 then
        .error .malformed
      else
        stringRest .plain (character :: done) text
  | .escaped, done, character :: text =>
      if character = 'u' then
        if hasFourBytes text then
          stringRest (.numbered none 4 0) done text
        else
          .error .truncated
      else
        match letterEscape? character with
        | some meant => stringRest .plain (meant :: done) text
        | none => .error .malformed
  | .numbered high remaining value, done, character :: text =>
      match hexValue? character with
      | none => .error .malformed
      | some digit =>
          if remaining ≤ 1 then
            match closeEscape high (value * 16 + digit) done with
            | .ok (state, done) => stringRest state done text
            | .error flaw => .error flaw
          else
            stringRest (.numbered high (remaining - 1) (value * 16 + digit))
              done text
  | .unpaired high, done, character :: text =>
      if character = '\\' then
        stringRest (.unpairedEscaped high) done text
      else
        .error .malformed
  | .unpairedEscaped high, done, character :: text =>
      if character = 'u' then
        if hasFourBytes text then
          stringRest (.numbered (some high) 4 0) done text
        else
          .error .truncated
      else
        .error .malformed

/-- Read a string literal after its opening quote. -/
def stringBody
    (text : List Char) :
    Except Flaw (String × List Char) :=
  stringRest .plain [] text

/-! ## Numbers -/

/-- A decimal digit. -/
def isDigit
    (character : Char) :
    Bool :=
  '0'.toNat ≤ character.toNat && character.toNat ≤ '9'.toNat

/-- The value of a decimal digit. -/
def digitValue
    (character : Char) :
    Nat :=
  character.toNat - '0'.toNat

/-- The digits in front of a text, at least one, and the rest. -/
def someDigits
    (text : List Char) :
    Except Flaw (List Char × List Char) :=
  let digits := text.takeWhile isDigit
  let rest := text.dropWhile isDigit
  if digits.isEmpty then .error (flawAt rest) else .ok (digits, rest)

/-- The whole part of a number has no needless leading zero. -/
def wholeDigits
    (text : List Char) :
    Except Flaw (List Char × List Char) :=
  match someDigits text with
  | .ok ('0' :: _ :: _, _) => .error .malformed
  | other => other

/--
Take digits into a significand while it fits 64 bits.

Returns the significand and the digits that were left out.
-/
def absorbDigits
    (significand : Nat) :
    List Char → Nat × List Char
  | [] => (significand, [])
  | digit :: digits =>
      let next := significand * 10 + digitValue digit
      if next < UInt64.size then
        absorbDigits next digits
      else
        (significand, digit :: digits)

/-- A decimal is a number when a binary number can hold it. -/
def realNumber
    (decimal : Decimal) :
    Except Flaw JsonNumber :=
  if decimal.magnitude?.isSome then
    .ok (.real decimal)
  else
    .error .malformed

/-- A number without fraction and exponent. -/
def wholeNumber
    (negative : Bool)
    (whole : List Char) :
    Except Flaw JsonNumber :=
  let (significand, leftOut) := absorbDigits 0 whole
  let decimal : Decimal := {
    negative := negative
    significand := significand
    exponent := leftOut.length
  }
  if !leftOut.isEmpty then
    realNumber decimal
  else if !negative then
    .ok (.integer significand)
  else if significand = 0 ∨ UInt64.size / 2 < significand then
    realNumber decimal
  else
    .ok (.integer (-(significand : Int)))

/-- Largest written exponent that is told apart from an endless one. -/
def exponentLimit : Nat := UInt32.size / 2

/-- A number with a fraction, an exponent or both. -/
def scaledNumber
    (negative : Bool)
    (whole fraction : List Char)
    (exponent : Option (Bool × List Char)) :
    Except Flaw JsonNumber :=
  let (wholeSignificand, wholeLeftOut) := absorbDigits 0 whole
  let (significand, fractionLeftOut) :=
    absorbDigits wholeSignificand fraction
  let shift : Int :=
    wholeLeftOut.length + fractionLeftOut.length - (fraction.length : Int)
  match exponent with
  | none =>
      realNumber {
        negative := negative
        significand := significand
        exponent := shift
      }
  | some (negativeExponent, digits) =>
      let written :=
        digits.foldl (fun value digit => value * 10 + digitValue digit) 0
      if written < exponentLimit then
        realNumber {
          negative := negative
          significand := significand
          exponent :=
            if negativeExponent then
              shift - written
            else
              shift + written
        }
      else if significand ≠ 0 ∧ ¬negativeExponent then
        .error .malformed
      else
        realNumber {
          negative := negative
          significand := 0
          exponent := 0
        }

/-- The digits of an exponent after its mark, and whether it is negative. -/
def exponentDigits :
    List Char → Except Flaw ((Bool × List Char) × List Char)
  | '-' :: text => (someDigits text).map fun (digits, rest) =>
      ((true, digits), rest)
  | '+' :: text => (someDigits text).map fun (digits, rest) =>
      ((false, digits), rest)
  | text => (someDigits text).map fun (digits, rest) =>
      ((false, digits), rest)

/-- A mark that an exponent follows. -/
def isExponentMark
    (character : Char) :
    Bool :=
  character == 'e' || character == 'E'

/-- Read a number after its sign. -/
def unsignedNumber
    (negative : Bool)
    (text : List Char) :
    Except Flaw (JsonNumber × List Char) := do
  let (whole, rest) ← wholeDigits text
  let (fraction, rest) ←
    match rest with
    | '.' :: rest => someDigits rest
    | rest => pure ([], rest)
  let (exponent, rest) ←
    match rest with
    | mark :: rest =>
        if isExponentMark mark then do
          let (exponent, rest) ← exponentDigits rest
          pure (some exponent, rest)
        else
          pure (none, mark :: rest)
    | [] => pure (none, [])
  let number ←
    if fraction.isEmpty && exponent.isNone then
      wholeNumber negative whole
    else
      scaledNumber negative whole fraction exponent
  return (number, rest)

/-- Does a number start with this character? -/
def startsNumber
    (character : Char) :
    Bool :=
  character == '-' || isDigit character

/-- Read a number. -/
def readNumber : List Char → Except Flaw (JsonNumber × List Char)
  | '-' :: text => unsignedNumber true text
  | text => unsignedNumber false text

end ShaderTint.Json
