import ShaderTint.Json.Printer
import ShaderTint.Source.LineIndex

namespace ShaderTint.Report

/-!
# Reports

A report shows highlights as rows of text, as rows of stretches by line, or as
JSON. Where lines and columns are shown in text they are numbered from one, as
editors do, and counted in words of 32 bits; in JSON they are numbered from zero.
-/

/-- One highlight of a report. -/
structure Record where
  highlight : Highlight
  /-- Where the highlight starts and stops, when the source is known. -/
  place : Option (Position × Position)
  /-- The text of the highlight, when the source is known and has it. -/
  text : Option String
  deriving DecidableEq

/-- The record of a highlight. -/
def Record.of
    (source : Option Source)
    (highlight : Highlight) :
    Record where
  highlight := highlight
  place := source.map fun source =>
    (source.index.position highlight.span.start,
      source.index.position highlight.span.stop)
  text := source.bind fun source => highlight.span.slice? source.text

/-- The records of highlights, in order. -/
def records
    (highlights : List Highlight)
    (source : Option Source) :
    List Record :=
  highlights.map (Record.of source)

/-- A number from zero as it is counted from one; after the last word comes zero. -/
def ordinal
    (number : Nat) :
    Nat :=
  (UInt32.ofNat number + 1).toNat

/-- A number that is not the last word is counted one higher. -/
theorem ordinal_of_lt
    {number : Nat}
    (notLast : number + 1 < offsetLimit) :
    ordinal number = number + 1 := by
  rw [ordinal, UInt32.toNat_add,
    UInt32.toNat_ofNat_of_lt' (Nat.lt_of_succ_lt notLast)]
  exact Nat.mod_eq_of_lt notLast

/-- A position as people write it. -/
def positionText
    (position : Position) :
    String :=
  toString (ordinal position.line) ++ ":" ++ toString (ordinal position.column)

/-- A record as a row of text, without its newline. -/
def Record.row
    (record : Record) :
    String :=
  match record.place with
  | some (first, last) =>
      positionText first ++ "-" ++ positionText last ++ " " ++
        record.highlight.tag.attributeId ++
        " '" ++ record.text.getD "" ++ "'"
  | none =>
      record.highlight.span.text ++ " " ++ record.highlight.tag.attributeId

/-- Rows of text, each ended by a newline. -/
def unlines
    (rows : List String) :
    String :=
  String.join (rows.map (· ++ "\n"))

/-- Records as rows of text. -/
def text
    (records : List Record) :
    String :=
  unlines (records.map Record.row)

/-- A stretch as it stands in the row of its line. -/
def stretchText
    (span : LineSpan) :
    String :=
  " " ++ toString (ordinal span.startColumn) ++ "-" ++
    toString (ordinal span.stopColumn) ++ ":" ++ span.tag.capture

/-- A line and its stretches as a row of text, without its newline. -/
def lineRow
    (line : LineSpans) :
    String :=
  toString (ordinal line.line) ++ ":" ++ String.join (line.spans.map stretchText)

/-- Highlights as rows of stretches by line; other lines are left out. -/
def lines
    (highlights : List Highlight)
    (source : Source) :
    String :=
  unlines ((source.index.perLine highlights).map lineRow)

/-- A record as a JSON object. -/
def Record.toJson
    (record : Record) :
    Json :=
  let place :=
    match record.place with
    | some (first, _) =>
        [("line", Json.ofNat first.line), ("column", Json.ofNat first.column)]
    | none => []
  let text :=
    match record.text with
    | some text => [("text", Json.string text)]
    | none => []
  .object ([("tag", .string record.highlight.tag.wire),
      ("capture", .string record.highlight.tag.capture),
      ("start", Json.ofNat record.highlight.span.start),
      ("end", Json.ofNat record.highlight.span.stop)] ++
    place ++ text)

/-- Records as JSON over several lines. -/
def json
    (records : List Record) :
    String :=
  (Json.array (records.map Record.toJson)).pretty

end ShaderTint.Report
