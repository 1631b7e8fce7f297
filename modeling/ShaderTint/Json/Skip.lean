import ShaderTint.Json.Reader

namespace ShaderTint.Json

/-!
# Skipping JSON

A value that nobody asks for is only passed over: its words are checked, but
numbers are not evaluated and numbered escapes need not be paired. The brackets
still open are kept in a list, so a skipped value may nest as deep as it likes.
-/

/-- Where a skip stands inside a string literal. -/
inductive SkipState where
  | plain
  | escaped
  | numbered (remaining : Nat)

/-- Skip the rest of a string literal. -/
def skipString : SkipState → List Char → Except Flaw (List Char)
  | _, [] => .error .truncated
  | .plain, character :: text =>
      if character = '"' then
        .ok text
      else if character = '\\' then
        skipString .escaped text
      else if character.toNat < 0x20 then
        .error .malformed
      else
        skipString .plain text
  | .escaped, character :: text =>
      if character = 'u' then
        if hasFourBytes text then
          skipString (.numbered 4) text
        else
          .error .truncated
      else if (letterEscape? character).isSome then
        skipString .plain text
      else
        .error .malformed
  | .numbered remaining, character :: text =>
      if (hexValue? character).isNone then
        .error .malformed
      else if remaining ≤ 1 then
        skipString .plain text
      else
        skipString (.numbered (remaining - 1)) text

/-- Skip at least one digit. -/
def skipDigits
    (text : List Char) :
    Except Flaw (List Char) :=
  match text with
  | character :: rest =>
      if isDigit character then
        .ok (rest.dropWhile isDigit)
      else
        .error .malformed
  | [] => .error .malformed

/-- Skip the exponent of a number, if it has one. -/
def skipExponent
    (text : List Char) :
    Except Flaw (List Char) :=
  match text with
  | mark :: rest =>
      if isExponentMark mark then
        match rest with
        | '+' :: rest => skipDigits rest
        | '-' :: rest => skipDigits rest
        | rest => skipDigits rest
      else
        .ok (mark :: rest)
  | [] => .ok []

/-- Skip a number; wherever it breaks off, it is wrong where it stands. -/
def skipNumber
    (text : List Char) :
    Except Flaw (List Char) := do
  let text :=
    match text with
    | '-' :: rest => rest
    | text => text
  let rest ←
    match text with
    | '0' :: rest =>
        match rest with
        | next :: _ =>
            if isDigit next then .error .malformed else pure rest
        | [] => pure rest
    | text => skipDigits text
  match rest with
  | '.' :: rest => skipDigits rest >>= skipExponent
  | rest => skipExponent rest

/-- A bracket that is open around a skipped value. -/
inductive Bracket where
  | square
  | brace
  deriving DecidableEq

mutual

/-- Skip a value and all that the open brackets still want. -/
def skipValueIn :
    Nat → List Bracket → List Char → Except Flaw (List Char)
  | 0, _, _ => .error .malformed
  | fuel + 1, opened, text =>
      match skipBlanks text with
      | [] => .error .truncated
      | 'n' :: rest =>
          expectWord ['u', 'l', 'l'] rest >>= skipAfter fuel opened
      | 't' :: rest =>
          expectWord ['r', 'u', 'e'] rest >>= skipAfter fuel opened
      | 'f' :: rest =>
          expectWord ['a', 'l', 's', 'e'] rest >>= skipAfter fuel opened
      | '"' :: rest => skipString .plain rest >>= skipAfter fuel opened
      | '[' :: rest =>
          match skipBlanks rest with
          | ']' :: rest => skipAfter fuel opened rest
          | rest => skipValueIn fuel (.square :: opened) rest
      | '\x7b' :: rest =>
          match skipBlanks rest with
          | '\x7d' :: rest => skipAfter fuel opened rest
          | rest => skipMemberIn fuel (.brace :: opened) rest
      | character :: rest =>
          if startsNumber character then
            skipNumber (character :: rest) >>= skipAfter fuel opened
          else
            .error .malformed

/-- Skip a member's name and value and all that the open brackets still want. -/
def skipMemberIn :
    Nat → List Bracket → List Char → Except Flaw (List Char)
  | 0, _, _ => .error .malformed
  | fuel + 1, opened, text =>
      match skipBlanks text with
      | '"' :: rest => do
          let rest ← skipString .plain rest
          let rest ← readColon rest
          skipValueIn fuel opened rest
      | other => .error (flawAt other)

/-- After a value, skip all that the open brackets still want. -/
def skipAfter :
    Nat → List Bracket → List Char → Except Flaw (List Char)
  | _, [], text => .ok text
  | 0, _ :: _, _ => .error .malformed
  | fuel + 1, .square :: outer, text =>
      match skipBlanks text with
      | ',' :: rest => skipValueIn fuel (.square :: outer) rest
      | ']' :: rest => skipAfter fuel outer rest
      | other => .error (flawAt other)
  | fuel + 1, .brace :: outer, text =>
      match skipBlanks text with
      | ',' :: rest => skipMemberIn fuel (.brace :: outer) rest
      | '\x7d' :: rest => skipAfter fuel outer rest
      | other => .error (flawAt other)

end

/-- Skip one value. -/
def skipValue
    (text : List Char) :
    Except Flaw (List Char) :=
  skipValueIn (fuelFor text) [] text

end ShaderTint.Json
