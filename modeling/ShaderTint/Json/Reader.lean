import ShaderTint.Json.Lexeme

namespace ShaderTint.Json

/-!
# Reading JSON

`Json.read` reads a text that holds one value and nothing else but blanks. The
fuel of the inner readers is computed from the length of the text, which every
step shortens.
-/

/-- Read the colon between the name and the value of a member. -/
def readColon
    (text : List Char) :
    Except Flaw (List Char) :=
  match skipBlanks text with
  | ':' :: rest => .ok rest
  | other => .error (flawAt other)

mutual

/-- Read one value. -/
def readValue : Nat → List Char → Except Flaw (Json × List Char)
  | 0, _ => .error .malformed
  | fuel + 1, text =>
      match skipBlanks text with
      | [] => .error .truncated
      | 'n' :: rest => do
          let rest ← expectWord ['u', 'l', 'l'] rest
          return (.null, rest)
      | 't' :: rest => do
          let rest ← expectWord ['r', 'u', 'e'] rest
          return (.bool true, rest)
      | 'f' :: rest => do
          let rest ← expectWord ['a', 'l', 's', 'e'] rest
          return (.bool false, rest)
      | '"' :: rest => do
          let (value, rest) ← stringBody rest
          return (.string value, rest)
      | '[' :: rest =>
          match skipBlanks rest with
          | ']' :: rest => .ok (.array [], rest)
          | rest => do
              let (items, rest) ← readItems fuel rest
              return (.array items, rest)
      | '\x7b' :: rest =>
          match skipBlanks rest with
          | '\x7d' :: rest => .ok (.object [], rest)
          | rest => do
              let (members, rest) ← readMembers fuel rest
              return (.object members, rest)
      | character :: rest =>
          if startsNumber character then do
            let (value, rest) ← readNumber (character :: rest)
            return (.number value, rest)
          else
            .error .malformed

/-- Read the items of an array up to its closing bracket. -/
def readItems : Nat → List Char → Except Flaw (List Json × List Char)
  | 0, _ => .error .malformed
  | fuel + 1, text => do
      let (item, rest) ← readValue fuel text
      match skipBlanks rest with
      | ',' :: rest =>
          let (items, rest) ← readItems fuel rest
          return (item :: items, rest)
      | ']' :: rest => return ([item], rest)
      | other => .error (flawAt other)

/-- Read the members of an object up to its closing brace. -/
def readMembers :
    Nat → List Char → Except Flaw (List (String × Json) × List Char)
  | 0, _ => .error .malformed
  | fuel + 1, text =>
      match skipBlanks text with
      | '"' :: rest => do
          let (name, rest) ← stringBody rest
          let rest ← readColon rest
          let (value, rest) ← readValue fuel rest
          match skipBlanks rest with
          | ',' :: rest =>
              let (members, rest) ← readMembers fuel rest
              return ((name, value) :: members, rest)
          | '\x7d' :: rest => return ([(name, value)], rest)
          | other => .error (flawAt other)
      | other => .error (flawAt other)

end

/-- Fuel that suffices for a text: two steps for each of its characters. -/
def fuelFor
    (text : List Char) :
    Nat :=
  2 * text.length + 2

/-- Read a text that holds one value. -/
def readChars
    (text : List Char) :
    Except Flaw Json := do
  let (value, rest) ← readValue (fuelFor text) text
  match skipBlanks rest with
  | [] => return value
  | _ :: _ => .error .malformed

/-- Read a text that holds one value. -/
def read
    (text : String) :
    Except Flaw Json :=
  readChars text.toList

end ShaderTint.Json
