import ShaderTint.Json.Value

namespace ShaderTint.Json

/-!
# Writing JSON

`compact` writes a value without blanks; `pretty` puts every item and member on
a line of its own, indented by two spaces a level. In strings only quotes,
backslashes and control characters are escaped. A writer puts its characters in
front of those that follow, so writing takes time in proportion to the text.
-/

/-- A lower-case hexadecimal digit. -/
def hexDigit
    (value : Nat) :
    Char :=
  if value < 10 then
    Char.ofNat ('0'.toNat + value)
  else
    Char.ofNat ('a'.toNat + (value - 10))

/-- A character as it stands in a string literal. -/
def escapeChar : Char → List Char
  | '"' => ['\\', '"']
  | '\\' => ['\\', '\\']
  | '\n' => ['\\', 'n']
  | '\r' => ['\\', 'r']
  | '\t' => ['\\', 't']
  | character =>
      if character.toNat = 0x08 then
        ['\\', 'b']
      else if character.toNat = 0x0c then
        ['\\', 'f']
      else if character.toNat < 0x20 then
        ['\\', 'u', '0', '0',
          hexDigit (character.toNat / 16), hexDigit (character.toNat % 16)]
      else
        [character]

/-- A string literal in front of a text. -/
def stringOnto
    (value : String)
    (after : List Char) :
    List Char :=
  '"' :: (value.toList.flatMap escapeChar ++ '"' :: after)

/-- A whole number. -/
def intChars : Int → List Char
  | .ofNat value => Nat.toDigits 10 value
  | .negSucc less => '-' :: Nat.toDigits 10 (less + 1)

/-- A number. -/
def numberChars : JsonNumber → List Char
  | .integer value => intChars value
  | .real decimal =>
      (if decimal.negative then ['-'] else []) ++
        Nat.toDigits 10 decimal.significand ++
        'e' :: intChars decimal.exponent

mutual

/-- A value without blanks in front of a text. -/
def compactOnto : Json → List Char → List Char
  | .null, after => 'n' :: 'u' :: 'l' :: 'l' :: after
  | .bool true, after => 't' :: 'r' :: 'u' :: 'e' :: after
  | .bool false, after => 'f' :: 'a' :: 'l' :: 's' :: 'e' :: after
  | .number value, after => numberChars value ++ after
  | .string value, after => stringOnto value after
  | .array [], after => '[' :: ']' :: after
  | .array (first :: others), after =>
      '[' :: compactOnto first (compactItemsOnto others (']' :: after))
  | .object [], after => '\x7b' :: '\x7d' :: after
  | .object ((name, value) :: others), after =>
      '\x7b' :: stringOnto name (':' :: compactOnto value
        (compactMembersOnto others ('\x7d' :: after)))

/-- The items after the first, in front of a text. -/
def compactItemsOnto : List Json → List Char → List Char
  | [], after => after
  | item :: others, after =>
      ',' :: compactOnto item (compactItemsOnto others after)

/-- The members after the first, in front of a text. -/
def compactMembersOnto : List (String × Json) → List Char → List Char
  | [], after => after
  | (name, value) :: others, after =>
      ',' :: stringOnto name (':' :: compactOnto value
        (compactMembersOnto others after))

end

/-- A new line at a level of indentation, in front of a text. -/
def lineBreakOnto
    (level : Nat)
    (after : List Char) :
    List Char :=
  '\n' :: (List.replicate (2 * level) ' ' ++ after)

mutual

/-- A value over several lines, from a level of indentation, in front of a text. -/
def prettyOnto
    (level : Nat) :
    Json → List Char → List Char
  | .null, after => 'n' :: 'u' :: 'l' :: 'l' :: after
  | .bool true, after => 't' :: 'r' :: 'u' :: 'e' :: after
  | .bool false, after => 'f' :: 'a' :: 'l' :: 's' :: 'e' :: after
  | .number value, after => numberChars value ++ after
  | .string value, after => stringOnto value after
  | .array [], after => '[' :: ']' :: after
  | .array (first :: others), after =>
      '[' :: lineBreakOnto (level + 1) (prettyOnto (level + 1) first
        (prettyItemsOnto (level + 1) others
          (lineBreakOnto level (']' :: after))))
  | .object [], after => '\x7b' :: '\x7d' :: after
  | .object ((name, value) :: others), after =>
      '\x7b' :: lineBreakOnto (level + 1) (stringOnto name
        (':' :: ' ' :: prettyOnto (level + 1) value
          (prettyMembersOnto (level + 1) others
            (lineBreakOnto level ('\x7d' :: after)))))

/-- The items after the first, each on a line of its own, in front of a text. -/
def prettyItemsOnto
    (level : Nat) :
    List Json → List Char → List Char
  | [], after => after
  | item :: others, after =>
      ',' :: lineBreakOnto level
        (prettyOnto level item (prettyItemsOnto level others after))

/-- The members after the first, each on a line of its own, in front of a text. -/
def prettyMembersOnto
    (level : Nat) :
    List (String × Json) → List Char → List Char
  | [], after => after
  | (name, value) :: others, after =>
      ',' :: lineBreakOnto level (stringOnto name
        (':' :: ' ' :: prettyOnto level value
          (prettyMembersOnto level others after)))

end

/-- The text of a value without blanks. -/
def compact
    (value : Json) :
    String :=
  String.ofList (value.compactOnto [])

/-- The text of a value over several lines. -/
def pretty
    (value : Json) :
    String :=
  String.ofList (value.prettyOnto 0 [])

end ShaderTint.Json
