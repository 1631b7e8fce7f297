import Std.Data.TreeMap.Basic
import ShaderTint.Highlight.Basic

namespace ShaderTint

/-!
# Lines and columns

Highlights carry byte offsets; editors show lines. A line index holds the offset
at which each line starts. Lines end at a newline byte, which belongs to no
line; columns count bytes. Lines and columns are numbered from zero.
-/

/-- A line and a column in it, both from zero. -/
structure Position where
  line : Nat
  column : Nat
  deriving DecidableEq

/-- The bytes of a line. -/
structure LineRange where
  start : Nat
  stop : Nat
  deriving DecidableEq

/-- A highlighted stretch of one line. -/
structure LineSpan where
  startColumn : Nat
  stopColumn : Nat
  tag : Tag
  deriving DecidableEq

/-- A line with its highlighted stretches. -/
structure LineSpans where
  line : Nat
  spans : List LineSpan
  deriving DecidableEq

/-- Where the lines of a source start. -/
structure LineIndex where
  /-- Offset of the first byte of each line; the first line starts at zero. -/
  starts : Array Nat
  /-- Number of bytes of the source. -/
  length : Nat
  deriving DecidableEq

/-- The byte that ends a line. -/
def newline : UInt8 := 10

namespace LineIndex

/-- Offsets at which lines after the first start. -/
def laterStarts
    (bytes : List UInt8) :
    List Nat :=
  bytes.zipIdx.filterMap fun (byte, offset) =>
    if byte = newline then some (offset + 1) else none

/-- The line index of a sequence of bytes. -/
def ofBytes
    (bytes : List UInt8) :
    LineIndex where
  starts := (0 :: laterStarts bytes).toArray
  length := bytes.length

/-- The line index of a source. -/
def ofSource
    (source : String) :
    LineIndex :=
  ofBytes source.toUTF8.data.toList

/-- Number of lines; an empty source has one. -/
def lineCount
    (index : LineIndex) :
    Nat :=
  index.starts.size

/-- Where an offset stands; offsets past the end stand at the end. -/
def position
    (index : LineIndex)
    (offset : Nat) :
    Position :=
  let offset := min offset index.length
  let line := index.starts.countP (· ≤ offset) - 1
  { line := line, column := offset - index.starts.getD line 0 }

/-- The bytes of a line without its newline. -/
def lineRange?
    (index : LineIndex)
    (line : Nat) :
    Option LineRange :=
  match index.starts[line]?, index.starts[line + 1]? with
  | some start, some next => some { start := start, stop := next - 1 }
  | some start, none => some { start := start, stop := index.length }
  | none, _ => none

/-- The stretch of a line that lies between two positions. -/
def stretch?
    (index : LineIndex)
    (first last : Position)
    (tag : Tag)
    (line : Nat) :
    Option LineSpan :=
  let startColumn := if line = first.line then first.column else 0
  let stopColumn :=
    if line = last.line then
      last.column
    else
      match index.lineRange? line with
      | some range => range.stop - range.start
      | none => startColumn
  if startColumn < stopColumn then
    some {
      startColumn := startColumn
      stopColumn := stopColumn
      tag := tag
    }
  else
    none

/-- The stretches of lines that a highlight covers, by line. -/
def stretches
    (index : LineIndex)
    (highlight : Highlight) :
    List (Nat × LineSpan) :=
  let first := index.position highlight.span.start
  let last := index.position highlight.span.stop
  (List.range' first.line (last.line + 1 - first.line)).filterMap fun line =>
    (index.stretch? first last highlight.tag line).map (line, ·)

/-- Collect stretches by line, keeping their order within each line. -/
def gather
    (pieces : List (Nat × LineSpan)) :
    Std.TreeMap Nat (Array LineSpan) :=
  pieces.foldl
    (fun lines (line, span) =>
      lines.insert line ((lines.getD line #[]).push span))
    ∅

/-- May a stretch stand before another one of its line? -/
def precedes
    (left right : LineSpan) :
    Bool :=
  left.startColumn < right.startColumn ||
    (left.startColumn == right.startColumn &&
      left.stopColumn ≤ right.stopColumn)

/--
Split highlights into stretches of lines.

Lines come in order; within a line stretches are ordered by column, and equal
ones keep the order of their highlights.
-/
def perLine
    (index : LineIndex)
    (highlights : List Highlight) :
    List LineSpans :=
  (gather (highlights.flatMap index.stretches)).toList.map
    fun (line, spans) =>
      { line := line, spans := spans.toList.mergeSort precedes }

end LineIndex

/-- A source text with its line index. -/
structure Source where
  text : String
  index : LineIndex

/-- Index a source text. -/
def Source.ofText
    (text : String) :
    Source where
  text := text
  index := LineIndex.ofSource text

end ShaderTint
