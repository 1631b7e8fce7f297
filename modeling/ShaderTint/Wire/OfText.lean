import ShaderTint.Highlight.Basic
import ShaderTint.Json.Skip
import ShaderTint.Tree.Node
import ShaderTint.Wire.Vocabulary

namespace ShaderTint.Wire

/-!
# Decoding JSON text

A tree or highlight is decoded straight from its text, and the first problem in
text order is the one reported, be it data that does not fit or text that is not
JSON. Only so many brackets may be open at once; a budget counts those that may
still be opened. Values of unknown members are skipped and cost no budget.
-/

/-- Something read from the front of a text, and the rest of the text. -/
abbrev Reader (α : Type) :=
  List Char → Except TextFault (α × List Char)

/-- Most brackets open at once. -/
def nestingLimit : Nat := 127

/-- Text that is not JSON. -/
def malformed : TextFault :=
  .flawed .malformed

/-- Use a reader of JSON words. -/
def word
    (result : Except Json.Flaw α) :
    Except TextFault α :=
  result.mapError .flawed

/-- Report data that does not fit. -/
def data
    (result : Except DataFault α) :
    Except TextFault α :=
  result.mapError .data

/--
The fault of a text whose next value is not what was wanted.

The value is read as far as its description needs.
-/
def mismatch
    (wanted : Wanted)
    (text : List Char) :
    TextFault :=
  let describe (found : Except Json.Flaw Found) : TextFault :=
    match found with
    | .ok found => .data (.invalidType found wanted)
    | .error flaw => .flawed flaw
  match Json.skipBlanks text with
  | [] => .flawed .truncated
  | 'n' :: rest =>
      describe ((Json.expectWord ['u', 'l', 'l'] rest).map fun _ => .null)
  | 't' :: rest =>
      describe
        ((Json.expectWord ['r', 'u', 'e'] rest).map fun _ => .bool true)
  | 'f' :: rest =>
      describe
        ((Json.expectWord ['a', 'l', 's', 'e'] rest).map fun _ =>
          .bool false)
  | '"' :: rest =>
      describe ((Json.stringBody rest).map fun (value, _) => .string value)
  | '[' :: _ => describe (.ok .sequence)
  | '\x7b' :: _ => describe (.ok .map)
  | character :: rest =>
      if Json.startsNumber character then
        describe ((Json.readNumber (character :: rest)).map fun
          | (.integer value, _) => .integer value
          | (.real value, _) => .real value)
      else
        malformed

/-! ## Brackets -/

/--
Look for the next element of an array.

Gives the text at the element, or nothing when the closing bracket is next.
-/
def nextElement
    (first : Bool)
    (text : List Char) :
    Except TextFault (Option (List Char)) :=
  match Json.skipBlanks text with
  | [] => .error (.flawed .truncated)
  | ']' :: _ => .ok none
  | character :: rest =>
      if first then
        .ok (some (character :: rest))
      else if character = ',' then
        match Json.skipBlanks rest with
        | [] => .error (.flawed .truncated)
        | ']' :: _ => .error malformed
        | rest => .ok (some rest)
      else
        .error malformed

/-- Read the closing bracket of an array. -/
def closeArray
    (text : List Char) :
    Except TextFault (List Char) :=
  match Json.skipBlanks text with
  | ']' :: rest => .ok rest
  | other => .error (.flawed (Json.flawAt other))

/-- What comes next in an object. -/
inductive NextMember where
  /-- The text after the closing brace. -/
  | closed (rest : List Char)
  /-- The text after the quote that opens a name. -/
  | named (rest : List Char)

/-- Look for the next member of an object. -/
def nextMember
    (first : Bool)
    (text : List Char) :
    Except TextFault NextMember :=
  match Json.skipBlanks text with
  | [] => .error (.flawed .truncated)
  | '\x7d' :: rest => .ok (.closed rest)
  | character :: rest =>
      if first then
        if character = '"' then .ok (.named rest) else .error malformed
      else if character = ',' then
        match Json.skipBlanks rest with
        | '"' :: rest => .ok (.named rest)
        | other => .error (.flawed (Json.flawAt other))
      else
        .error malformed

/-- Read the elements of an array and its closing bracket. -/
def elements
    (item : Reader α) :
    (fuel : Nat) → (first : Bool) → Reader (List α)
  | 0, _, _ => .error malformed
  | fuel + 1, first, text => do
      match ← nextElement first text with
      | none =>
          let rest ← closeArray text
          return ([], rest)
      | some text =>
          let (head, rest) ← item text
          let (tail, rest) ← elements item fuel false rest
          return (head :: tail, rest)

/-! ## Spans and names -/

/-- Read a byte offset. -/
def readOffset : Reader { offset : Nat // offset < offsetLimit } :=
  fun text =>
    match Json.skipBlanks text with
    | [] => .error (.flawed .truncated)
    | character :: rest =>
        if Json.startsNumber character then do
          let (number, rest) ← word (Json.readNumber (character :: rest))
          match number with
          | .integer value =>
              let offset ← data (offsetOf value)
              return (offset, rest)
          | .real value =>
              .error (.data (.invalidType (.real value) .offset))
        else
          .error (mismatch .offset (character :: rest))

/-- Read the two offsets of a span after the opening bracket. -/
def readPair : Reader Span :=
  fun text => do
    match ← nextElement true text with
    | none => .error (.data (.invalidLength 0 .pair))
    | some text =>
        let (start, rest) ← readOffset text
        match ← nextElement false rest with
        | none => .error (.data (.invalidLength 1 .pair))
        | some text =>
            let (stop, rest) ← readOffset text
            let rest ← closeArray rest
            let span ← data (spanOf start stop)
            return (span, rest)

/-- Read a span. -/
def readSpan
    (budget : Nat) :
    Reader Span :=
  fun text =>
    match Json.skipBlanks text with
    | '[' :: rest =>
        if budget = 0 then .error malformed else readPair rest
    | other => .error (mismatch .pair other)

/-- Read the null that stands for no content. -/
def readUnit
    (text : List Char) :
    Except TextFault (List Char) :=
  match Json.skipBlanks text with
  | 'n' :: rest => word (Json.expectWord ['u', 'l', 'l'] rest)
  | other => .error (mismatch .unit other)

/-- Read the rest of a name and look it up. -/
def readName
    (vocabulary : Vocabulary α) :
    Reader α :=
  fun text => do
    let (name, rest) ← word (Json.stringBody text)
    let value ← data (vocabulary.find name)
    return (value, rest)

/--
Read an object with one member, a name without content.

The name is a string as in every object. A null, a truth value, a number or a bracket in
its place is not data of a wrong type but text that is not JSON, and is not read on.
-/
def readOneKeyMap
    (vocabulary : Vocabulary α) :
    Reader α :=
  fun text =>
    match Json.skipBlanks text with
    | '"' :: rest => do
        let (value, rest) ← readName vocabulary rest
        let rest ← word (Json.readColon rest)
        let rest ← readUnit rest
        match Json.skipBlanks rest with
        | '\x7d' :: rest => return (value, rest)
        | other => .error (.flawed (Json.flawAt other))
    | other => .error (.flawed (Json.flawAt other))

/-- Read a name of a vocabulary. -/
def readVariant
    (vocabulary : Vocabulary α)
    (budget : Nat) :
    Reader α :=
  fun text =>
    match Json.skipBlanks text with
    | '"' :: rest => readName vocabulary rest
    | '\x7b' :: rest =>
        if budget = 0 then
          .error malformed
        else
          readOneKeyMap vocabulary rest
    | other => .error (.flawed (Json.flawAt other))

/-! ## Nodes -/

/-- The members of a node that have been read. -/
structure NodeMembers where
  kind : Option Kind
  span : Option Span
  children : Option (List Node)

/-- No member read yet. -/
def NodeMembers.none : NodeMembers where
  kind := Option.none
  span := Option.none
  children := Option.none

/-- The node of all members, children being optional. -/
def NodeMembers.node
    (members : NodeMembers) :
    Except DataFault Node :=
  match members.kind, members.span with
  | some kind, some span =>
      .ok {
        kind := kind
        span := span
        children := members.children.getD []
      }
  | Option.none, _ => .error (.missingField .kind)
  | some _, Option.none => .error (.missingField .range)

/-- A member may be read once. -/
def onlyOnce
    (field : Field)
    (before : Option α) :
    Except TextFault Unit :=
  match before with
  | none => .ok ()
  | some _ => .error (.data (.duplicateField field))

/-- Read the members of a node and the closing brace. -/
def readNodeMembers
    (children : Reader (List Node))
    (budget : Nat) :
    (fuel : Nat) → (first : Bool) → NodeMembers → Reader Node
  | 0, _, _, _ => .error malformed
  | fuel + 1, first, members, text => do
      match ← nextMember first text with
      | .closed rest =>
          let node ← data members.node
          return (node, rest)
      | .named rest =>
          let (name, rest) ← word (Json.stringBody rest)
          if name = Field.kind.name then
            onlyOnce .kind members.kind
            let rest ← word (Json.readColon rest)
            let (kind, rest) ← readVariant kinds budget rest
            readNodeMembers children budget fuel false
              { members with kind := some kind } rest
          else if name = Field.range.name then
            onlyOnce .range members.span
            let rest ← word (Json.readColon rest)
            let (span, rest) ← readSpan budget rest
            readNodeMembers children budget fuel false
              { members with span := some span } rest
          else if name = Field.children.name then
            onlyOnce .children members.children
            let rest ← word (Json.readColon rest)
            let (list, rest) ← children rest
            readNodeMembers children budget fuel false
              { members with children := some list } rest
          else
            let rest ← word (Json.readColon rest)
            let rest ← word (Json.skipValue rest)
            readNodeMembers children budget fuel false members rest

/-- Read the elements of a node and the closing bracket. -/
def readNodeElements
    (children : Reader (List Node))
    (budget : Nat) :
    Reader Node :=
  fun text => do
    match ← nextElement true text with
    | none => .error (.data (.invalidLength 0 .nodeElements))
    | some text =>
        let (kind, rest) ← readVariant kinds budget text
        match ← nextElement false rest with
        | none => .error (.data (.invalidLength 1 .nodeElements))
        | some text =>
            let (span, rest) ← readSpan budget text
            let (list, rest) ←
              match ← nextElement false rest with
              | none => pure ([], rest)
              | some text => children text
            let rest ← closeArray rest
            return ({ kind := kind, span := span, children := list }, rest)

/-- Read a node whose bracket may be opened. -/
def readNodeWith
    (children : Reader (List Node))
    (budget : Nat) :
    Reader Node :=
  fun text =>
    match Json.skipBlanks text with
    | '[' :: rest => readNodeElements children budget rest
    | '\x7b' :: rest =>
        readNodeMembers children budget (Json.fuelFor rest) true
          NodeMembers.none rest
    | other => .error (mismatch .node other)

/-- Read children whose bracket may be opened. -/
def readChildrenWith
    (node : Reader Node) :
    Reader (List Node) :=
  fun text =>
    match Json.skipBlanks text with
    | '[' :: rest => elements node (Json.fuelFor rest) true rest
    | other => .error (mismatch .children other)

/-- Read a value whose bracket may not be opened any more. -/
def readClosed
    (wanted : Wanted)
    (opens : Char → Bool) :
    Reader α :=
  fun text =>
    match Json.skipBlanks text with
    | character :: rest =>
        if opens character then
          .error malformed
        else
          .error (mismatch wanted (character :: rest))
    | [] => .error (.flawed .truncated)

mutual

/-- Read a tree within a budget of brackets. -/
def readNode : (budget : Nat) → Reader Node
  | 0 => readClosed .node fun character =>
      character == '[' || character == '\x7b'
  | budget + 1 => readNodeWith (readChildren budget) budget

/-- Read a list of trees within a budget of brackets. -/
def readChildren : (budget : Nat) → Reader (List Node)
  | 0 => readClosed .children (· == '[')
  | budget + 1 => readChildrenWith (readNode budget)

end

/-! ## Highlights -/

/-- Read the members of a highlight and the closing brace. -/
def readHighlightMembers
    (budget : Nat) :
    (fuel : Nat) → (first : Bool) →
      Option Span → Option Tag → Reader Highlight
  | 0, _, _, _, _ => .error malformed
  | fuel + 1, first, span, tag, text => do
      match ← nextMember first text with
      | .closed rest =>
          match span, tag with
          | some span, some tag => return ({ span := span, tag := tag }, rest)
          | none, _ => .error (.data (.missingField .range))
          | some _, none => .error (.data (.missingField .tag))
      | .named rest =>
          let (name, rest) ← word (Json.stringBody rest)
          if name = Field.range.name then
            onlyOnce .range span
            let rest ← word (Json.readColon rest)
            let (span, rest) ← readSpan budget rest
            readHighlightMembers budget fuel false (some span) tag rest
          else if name = Field.tag.name then
            onlyOnce .tag tag
            let rest ← word (Json.readColon rest)
            let (tag, rest) ← readVariant tags budget rest
            readHighlightMembers budget fuel false span (some tag) rest
          else
            let rest ← word (Json.readColon rest)
            let rest ← word (Json.skipValue rest)
            readHighlightMembers budget fuel false span tag rest

/-- Read the elements of a highlight and the closing bracket. -/
def readHighlightElements
    (budget : Nat) :
    Reader Highlight :=
  fun text => do
    match ← nextElement true text with
    | none => .error (.data (.invalidLength 0 .highlightElements))
    | some text =>
        let (span, rest) ← readSpan budget text
        match ← nextElement false rest with
        | none => .error (.data (.invalidLength 1 .highlightElements))
        | some text =>
            let (tag, rest) ← readVariant tags budget text
            let rest ← closeArray rest
            return ({ span := span, tag := tag }, rest)

/-- Read a highlight. -/
def readHighlight : Reader Highlight :=
  fun text =>
    match Json.skipBlanks text with
    | '[' :: rest => readHighlightElements (nestingLimit - 1) rest
    | '\x7b' :: rest =>
        readHighlightMembers (nestingLimit - 1) (Json.fuelFor rest) true
          none none rest
    | other => .error (mismatch .highlight other)

/-! ## Whole texts -/

/-- A text holds one value and nothing else but blanks. -/
def wholeText
    (reader : Reader α)
    (text : List Char) :
    Except TextFault α := do
  let (value, rest) ← reader text
  match Json.skipBlanks rest with
  | [] => return value
  | _ :: _ => .error malformed

/-- Decode the text of a tree. -/
def nodeOfText
    (text : String) :
    Except TextFault Node :=
  wholeText (readNode nestingLimit) text.toList

/-- Decode the text of a highlight. -/
def highlightOfText
    (text : String) :
    Except TextFault Highlight :=
  wholeText readHighlight text.toList

end ShaderTint.Wire
