import ShaderTint.Text.Unprintable

namespace ShaderTint.Text

/-!
# Quoted text

Text in a message stands between double quotes. Quotes, backslashes and the
common controls are escaped by a letter, other characters without a glyph by
their number in braces.
-/

/-- Lower-case hexadecimal digits of a number, without leading zeros. -/
def hexDigits
    (value : Nat) :
    List Char :=
  Nat.toDigits 16 value

/-- A character as it stands between quotes. -/
def quoteChar : Char → List Char
  | '"' => ['\\', '"']
  | '\\' => ['\\', '\\']
  | '\n' => ['\\', 'n']
  | '\r' => ['\\', 'r']
  | '\t' => ['\\', 't']
  | character =>
      if character.toNat = 0 then
        ['\\', '0']
      else if isUnprintable character then
        ['\\', 'u', '\x7b'] ++ hexDigits character.toNat ++ ['\x7d']
      else
        [character]

/-- A text between quotes. -/
def quoted
    (text : String) :
    String :=
  String.ofList ('"' :: text.toList.flatMap quoteChar ++ ['"'])

end ShaderTint.Text
