import Mathlib.Algebra.Group.Nat.Defs
import ShaderTint.Proofs.Source.Clipping
import ShaderTint.Report.Record

namespace ShaderTint

/-!
# Numbers from one in words

Lines and columns are kept from zero and shown from one, and they are counted up in
words of 32 bits. What becomes of a number that has no next word depends on how the
program was built, and is a parameter here (`Overflow`): `Report.text` and
`Report.lines` start over from zero, and a program that checks its sums ends.

To say so for all numbers at once, a report is taken apart into `Piece`s: texts, and
numbers that are shown one higher. The same pieces can be written with any way of
counting.

Main statements: `Report.written?_of_fit` says that words do not matter as long as
every number has a next word, and `Report.numbers_from_one_fit` for which sources that
is so.
-/

/-! ## How large lines and columns get -/

namespace LineIndex

/-- Every offset that the index holds can be kept in a word. -/
def Addressable
    (index : LineIndex) :
    Prop :=
  index.length < offsetLimit ∧ ∀ start ∈ index.starts, start < offsetLimit

/-- The lines of stretches, and their columns, are numbered by bytes of the source. -/
theorem perLine_le_length
    (bytes : List UInt8)
    {highlights : List Highlight}
    {entry : LineSpans}
    (listed : entry ∈ (ofBytes bytes).perLine highlights) :
    entry.line ≤ bytes.length ∧
      ∀ span ∈ entry.spans,
        span.startColumn ≤ bytes.length ∧ span.stopColumn ≤ bytes.length := by
  obtain ⟨range, found, _, spans⟩ := mem_perLine_iff_clip?.mp listed
  have isLine := isLine_of_lineRange? found
  refine ⟨isLine.line_le, ?_⟩
  intro span member
  rw [spans, List.mem_mergeSort, List.mem_filterMap] at member
  obtain ⟨highlight, _, clipped⟩ := member
  obtain ⟨nonempty, toStop⟩ := LineRange.columns_of_clip? clipped
  have inside := isLine.stop_le
  omega

/-- Bytes without a newline are one line. -/
theorem ofBytes_of_unbroken
    {bytes : List UInt8}
    (unbroken : newline ∉ bytes) :
    ofBytes bytes = { starts := #[0], length := bytes.length } := by
  have noLater : startsFrom 0 bytes = [] := by
    rw [← List.length_eq_zero_iff, length_startsFrom]
    exact List.count_eq_zero.mpr unbroken
  change LineIndex.mk (0 :: startsFrom 0 bytes).toArray _ = _
  rw [noLater]

/-- A highlight over the only line of a source is one stretch. -/
theorem perLine_of_oneLine
    {count : Nat}
    (nonempty : 0 < count)
    {highlight : Highlight}
    (fromStart : highlight.span.start = 0)
    (toStop : highlight.span.stop = count) :
    perLine { starts := #[0], length := count } [highlight] =
      [⟨0, [⟨0, count, highlight.tag⟩]⟩] := by
  have oneStretch :
      stretches { starts := #[0], length := count } highlight =
        [(0, ⟨0, count, highlight.tag⟩)] := by
    simp [stretches, position, stretch?, fromStart, toStop, nonempty]
  have gathered (span : LineSpan) :
      (gather [(0, span)]).toList = [(0, #[span])] :=
    rfl
  rw [perLine, List.flatMap_singleton, oneStretch, gathered]
  simp

end LineIndex

namespace Report

/-! ## Counting up in a word -/

/-- What becomes of a number that has no next word. -/
inductive Overflow where
  /-- The program ends and shows nothing. -/
  | stops
  /-- Counting starts over from zero. -/
  | wraps
  deriving DecidableEq

/-- The word after a word. -/
def Overflow.next?
    (overflow : Overflow)
    (word : UInt32) :
    Option UInt32 :=
  match overflow with
  | .stops =>
      if word.toNat + 1 < offsetLimit then some (word + 1) else none
  | .wraps => some (word + 1)

/-- A number that is not the last word has a next one. -/
theorem Overflow.next?_of_lt
    (overflow : Overflow)
    {word : UInt32}
    (notLast : word.toNat + 1 < offsetLimit) :
    overflow.next? word = some (word + 1) := by
  cases overflow with
  | stops => exact if_pos notLast
  | wraps => rfl

/-- A piece of a report. -/
inductive Piece where
  | plain (text : String)
  /-- A number from zero that is shown from one. -/
  | number (value : Nat)

/-- A piece as it is shown by a way of counting. -/
def Piece.shown
    (count : Nat → Nat) :
    Piece → String
  | .plain text => text
  | .number value => toString (count value)

/-- A piece as it is shown when its number is counted up in a word. -/
def Piece.shown?
    (overflow : Overflow) :
    Piece → Option String
  | .plain text => some text
  | .number value =>
      (overflow.next? (UInt32.ofNat value)).map fun word =>
        toString word.toNat

@[simp]
theorem Piece.shown?_plain
    (overflow : Overflow)
    (text : String) :
    (Piece.plain text).shown? overflow = some text :=
  rfl

/-- The pieces of a report as one text, by a way of counting. -/
def written
    (count : Nat → Nat)
    (pieces : List Piece) :
    String :=
  String.join (pieces.map (Piece.shown count))

/-- The pieces of a report as one text, its numbers counted up in words. -/
def written?
    (overflow : Overflow) :
    List Piece → Option String
  | [] => some ""
  | piece :: rest =>
      (piece.shown? overflow).bind fun first =>
        (written? overflow rest).map (first ++ ·)

/-- The numbers of a report that are shown one higher. -/
def numbersOf : List Piece → List Nat
  | [] => []
  | .plain _ :: rest => numbersOf rest
  | .number value :: rest => value :: numbersOf rest

@[simp]
theorem numbersOf_append
    (first second : List Piece) :
    numbersOf (first ++ second) = numbersOf first ++ numbersOf second := by
  induction first with
  | nil =>
      rfl
  | cons piece rest inductionHypothesis =>
      cases piece <;> simp [numbersOf, inductionHypothesis]

/-- The numbers of a report are those of its parts. -/
theorem mem_numbersOf_flatMap
    {pieces : α → List Piece}
    {entries : List α}
    {number : Nat} :
    number ∈ numbersOf (entries.flatMap pieces) ↔
      ∃ entry ∈ entries, number ∈ numbersOf (pieces entry) := by
  induction entries with
  | nil =>
      simp [numbersOf]
  | cons entry rest inductionHypothesis =>
      simp [inductionHypothesis]

theorem written_append
    (count : Nat → Nat)
    (first second : List Piece) :
    written count (first ++ second) =
      written count first ++ written count second := by
  simp [written, String.join_append]

/-- A number with a next word is shown one higher. -/
theorem Piece.shown?_number
    (overflow : Overflow)
    {value : Nat}
    (fits : value + 1 < offsetLimit) :
    (Piece.number value).shown? overflow = some (toString (value + 1)) := by
  have asWord : (UInt32.ofNat value).toNat = value :=
    UInt32.toNat_ofNat_of_lt' (Nat.lt_of_succ_lt fits)
  have next : (UInt32.ofNat value + 1).toNat = value + 1 :=
    ordinal_of_lt fits
  rw [shown?, overflow.next?_of_lt (asWord.symm ▸ fits), Option.map_some, next]

/-- The last word has no next one. -/
theorem Piece.shown?_stops_eq_none
    {value : Nat}
    (isLast : value + 1 = offsetLimit) :
    (Piece.number value).shown? .stops = none := by
  have asWord : (UInt32.ofNat value).toNat = value :=
    UInt32.toNat_ofNat_of_lt' (Nat.lt_of_succ_le (Nat.le_of_eq isLast))
  rw [shown?, Overflow.next?, asWord,
    if_neg (Nat.not_lt_of_le (Nat.le_of_eq isLast.symm)), Option.map_none]

/-- Counting starts over after the last word. -/
theorem Piece.shown?_wraps_last
    {value : Nat}
    (isLast : value + 1 = offsetLimit) :
    (Piece.number value).shown? .wraps = some "0" := by
  obtain rfl : value = 4294967295 :=
    Nat.succ.inj isLast
  rfl

/-- A report whose counting starts over is always shown. -/
theorem written?_wraps
    (pieces : List Piece) :
    written? .wraps pieces = some (written ordinal pieces) := by
  induction pieces with
  | nil =>
      rfl
  | cons piece rest inductionHypothesis =>
      have ofPiece : piece.shown? .wraps = some (piece.shown ordinal) := by
        cases piece <;> rfl
      rw [written?, ofPiece, inductionHypothesis]
      simp [written]

/-- Words do not matter to a report whose numbers all have a next one. -/
theorem written?_of_fit
    (overflow : Overflow)
    {pieces : List Piece}
    (fit : ∀ number ∈ numbersOf pieces, number + 1 < offsetLimit) :
    written? overflow pieces = some (written (· + 1) pieces) := by
  induction pieces with
  | nil =>
      rfl
  | cons piece rest inductionHypothesis =>
      cases piece with
      | plain text =>
          rw [written?, inductionHypothesis fit]
          simp [written, Piece.shown]
      | number value =>
          rw [numbersOf, List.forall_mem_cons] at fit
          rw [written?, Piece.shown?_number overflow fit.1,
            inductionHypothesis fit.2]
          simp [written, Piece.shown]

/-- A report whose numbers all have a next word shows the numbers themselves, one higher. -/
theorem written_ordinal_of_fit
    {pieces : List Piece}
    (fit : ∀ number ∈ numbersOf pieces, number + 1 < offsetLimit) :
    written ordinal pieces = written (· + 1) pieces :=
  Option.some.inj
    ((written?_wraps pieces).symm.trans (written?_of_fit .wraps fit))

/-- A report with the last word among its numbers is not shown when that ends the program. -/
theorem written?_stops_eq_none
    {pieces : List Piece}
    {number : Nat}
    (member : number ∈ numbersOf pieces)
    (isLast : number + 1 = offsetLimit) :
    written? .stops pieces = none := by
  induction pieces with
  | nil =>
      simp [numbersOf] at member
  | cons piece rest inductionHypothesis =>
      cases piece with
      | plain text =>
          rw [written?, inductionHypothesis member]
          rfl
      | number value =>
          rw [numbersOf, List.mem_cons] at member
          rcases member with rfl | inRest
          · rw [written?, Piece.shown?_stops_eq_none isLast]
            rfl
          · rw [written?, inductionHypothesis inRest]
            cases (Piece.number value).shown? .stops <;> rfl

/-! ## The pieces of a report -/

/-- The pieces of a position. -/
def positionPieces
    (position : Position) :
    List Piece :=
  [.number position.line, .plain ":", .number position.column]

/-- The pieces of a record's row, without its newline. -/
def Record.pieces
    (record : Record) :
    List Piece :=
  match record.place with
  | some (first, last) =>
      positionPieces first ++ .plain "-" :: positionPieces last ++
        [.plain (" " ++ record.highlight.tag.attributeId ++
          " '" ++ record.text.getD "" ++ "'")]
  | none => [.plain record.row]

/-- The pieces of a report of records. -/
def textPieces
    (records : List Record) :
    List Piece :=
  records.flatMap fun record => record.pieces ++ [.plain "\n"]

/-- The pieces of a stretch in the row of its line. -/
def stretchPieces
    (span : LineSpan) :
    List Piece :=
  [.plain " ", .number span.startColumn, .plain "-",
    .number span.stopColumn, .plain (":" ++ span.tag.capture)]

/-- The pieces of a line's row, without its newline. -/
def linePieces
    (line : LineSpans) :
    List Piece :=
  .number line.line :: .plain ":" :: line.spans.flatMap stretchPieces

/-- The pieces of a report of stretches by line. -/
def linesPieces
    (highlights : List Highlight)
    (source : Source) :
    List Piece :=
  (source.index.perLine highlights).flatMap fun line =>
    linePieces line ++ [.plain "\n"]

/-- Rows that are written from pieces are the report that is written from all pieces. -/
theorem unlines_map_eq_written
    {count : Nat → Nat}
    {row : α → String}
    {pieces : α → List Piece}
    (written_eq : ∀ entry, written count (pieces entry) = row entry)
    (entries : List α) :
    unlines (entries.map row) =
      written count
        (entries.flatMap fun entry => pieces entry ++ [.plain "\n"]) := by
  induction entries with
  | nil =>
      rfl
  | cons entry rest inductionHypothesis =>
      rw [List.flatMap_cons, written_append, written_append, written_eq,
        ← inductionHypothesis]
      simp [unlines, written, Piece.shown]

theorem written_pieces
    (record : Record) :
    written ordinal record.pieces = record.row := by
  cases place : record.place with
  | none =>
      simp [Record.pieces, place, written, Piece.shown]
  | some ends =>
      simp [Record.pieces, Record.row, place, positionPieces, positionText,
        written, Piece.shown, String.append_assoc]

/-- A report of records is written from its pieces. -/
theorem text_eq_written
    (records : List Record) :
    text records = written ordinal (textPieces records) :=
  unlines_map_eq_written written_pieces records

theorem written_linePieces
    (line : LineSpans) :
    written ordinal (linePieces line) = lineRow line := by
  have stretches (spans : List LineSpan) :
      written ordinal (spans.flatMap stretchPieces) =
        String.join (spans.map stretchText) := by
    induction spans with
    | nil =>
        rfl
    | cons span rest inductionHypothesis =>
        rw [List.flatMap_cons, written_append, inductionHypothesis]
        simp [written, stretchPieces, stretchText, Piece.shown,
          String.append_assoc]
  rw [lineRow, ← stretches]
  simp [linePieces, written, Piece.shown, String.append_assoc]

/-- A report of stretches is written from its pieces. -/
theorem lines_eq_written
    (highlights : List Highlight)
    (source : Source) :
    lines highlights source =
      written ordinal (linesPieces highlights source) :=
  unlines_map_eq_written written_linePieces _

/-! ## Sources whose numbers fit -/

/-- The numbers of a report of records are not above the length of the source. -/
theorem numbersOf_textPieces_le
    (source : String)
    (highlights : List Highlight) :
    ∀ number ∈ numbersOf (textPieces (records highlights (some (.ofText source)))),
      number ≤ source.utf8ByteSize := by
  intro number member
  obtain ⟨_, listed, inRow⟩ := mem_numbersOf_flatMap.mp member
  obtain ⟨highlight, _, rfl⟩ := List.mem_map.mp listed
  have ofPosition (offset : Nat) :=
    LineIndex.position_le_length (bytesOf source) offset
  simp only [Record.pieces, Record.of, Option.map_some, positionPieces,
    numbersOf, List.cons_append, List.nil_append, List.mem_cons,
    List.not_mem_nil, or_false] at inRow
  rcases inRow with rfl | rfl | rfl | rfl
  · exact (ofPosition _).1
  · exact (ofPosition _).2
  · exact (ofPosition _).1
  · exact (ofPosition _).2

/-- Without a source, a report of records has no numbers that are shown from one. -/
theorem numbersOf_textPieces_none
    (highlights : List Highlight) :
    numbersOf (textPieces (records highlights none)) = [] := by
  rw [List.eq_nil_iff_forall_not_mem]
  intro number member
  obtain ⟨_, listed, inRow⟩ := mem_numbersOf_flatMap.mp member
  obtain ⟨highlight, _, rfl⟩ := List.mem_map.mp listed
  simp [Record.pieces, Record.of, numbersOf] at inRow

/-- The numbers of a report of stretches are not above the length of the source. -/
theorem numbersOf_linesPieces_le
    (source : String)
    (highlights : List Highlight) :
    ∀ number ∈ numbersOf (linesPieces highlights (.ofText source)),
      number ≤ source.utf8ByteSize := by
  intro number member
  obtain ⟨entry, listed, inRow⟩ := mem_numbersOf_flatMap.mp member
  obtain ⟨ofLine, ofSpans⟩ :=
    LineIndex.perLine_le_length (bytesOf source) listed
  simp only [linePieces, numbersOf_append, numbersOf, List.cons_append,
    List.append_nil, List.mem_cons, mem_numbersOf_flatMap, stretchPieces,
    List.not_mem_nil, or_false] at inRow
  rcases inRow with rfl | ⟨span, inSpans, rfl | rfl⟩
  · exact ofLine
  · exact (ofSpans span inSpans).1
  · exact (ofSpans span inSpans).2

/-! ## A source whose numbers do not fit -/

/-- A source of one line with so many letters. -/
def letters
    (count : Nat) :
    String :=
  String.ofList (List.replicate count 'a')

theorem bytesOf_letters
    (count : Nat) :
    bytesOf (letters count) = List.replicate count 97 := by
  rw [bytesOf_eq_flatMap, letters, String.toList_ofList, List.flatMap_replicate]
  exact List.flatten_replicate_singleton

theorem utf8ByteSize_letters
    (count : Nat) :
    (letters count).utf8ByteSize = count := by
  rw [← length_bytesOf, bytesOf_letters, List.length_replicate]

theorem ofSource_letters
    (count : Nat) :
    LineIndex.ofSource (letters count) =
      { starts := #[0], length := count } := by
  have unbroken : newline ∉ bytesOf (letters count) := by
    rw [bytesOf_letters, List.mem_replicate]
    exact fun isNewline => absurd isNewline.2 (by decide)
  have indexed := LineIndex.ofBytes_of_unbroken unbroken
  rw [bytesOf_letters, List.length_replicate] at indexed
  rw [← indexed, ← bytesOf_letters]
  rfl

/-- One highlight over the letters of a source of one line. -/
def overLetters
    (count : Nat)
    (short : count < offsetLimit) :
    Highlight where
  span := ⟨0, count, Nat.zero_le count, short⟩
  tag := .keyword

section

variable {count : Nat} (short : count < offsetLimit)

theorem textPieces_overLetters :
    textPieces
        (records [overLetters count short] (some (.ofText (letters count)))) =
      [.number 0, .plain ":", .number 0, .plain "-",
        .number 0, .plain ":", .number count,
        .plain (" CG_KEYWORD '" ++
          ((overLetters count short).span.slice? (letters count)).getD "" ++
          "'"),
        .plain "\n"] := by
  simp [textPieces, records, Record.of, Record.pieces, positionPieces,
    Source.ofText, ofSource_letters, LineIndex.position, overLetters,
    Tag.attributeId]

theorem linesPieces_overLetters
    (nonempty : 0 < count) :
    linesPieces [overLetters count short] (.ofText (letters count)) =
      [.number 0, .plain ":", .plain " ", .number 0, .plain "-",
        .number count, .plain ":keyword", .plain "\n"] := by
  rw [linesPieces, Source.ofText, ofSource_letters,
    LineIndex.perLine_of_oneLine nonempty rfl rfl]
  rfl

end

/-- The column after the last of so many letters has no next word. -/
theorem overLetters_overflows
    {count : Nat}
    (short : count < offsetLimit)
    (isLast : count + 1 = offsetLimit) :
    let highlight := overLetters count short
    let source := letters count
    let shown := records [highlight] (some (.ofText source))
    let byLine := linesPieces [highlight] (.ofText source)
    let covered := (highlight.span.slice? source).getD ""
    count ∈ numbersOf (textPieces shown) ∧
      count ∈ numbersOf byLine ∧
      written? .stops (textPieces shown) = none ∧
      written? .stops byLine = none ∧
      written? .wraps (textPieces shown) =
        some ("1:1-1:0 CG_KEYWORD '" ++ covered ++ "'\n") ∧
      written? .wraps byLine = some "1: 1-0:keyword\n" := by
  intro highlight source shown byLine covered
  have nonempty : 0 < count := by
    have large : 1 < offsetLimit := by decide
    omega
  have ofText : textPieces shown = _ := textPieces_overLetters short
  have ofLines : byLine = _ := linesPieces_overLetters short nonempty
  have inText : count ∈ numbersOf (textPieces shown) := by
    simp [ofText, numbersOf]
  have inLines : count ∈ numbersOf byLine := by
    simp [ofLines, numbersOf]
  have first : (Piece.number 0).shown? .wraps = some "1" := rfl
  have last := Piece.shown?_wraps_last isLast
  refine ⟨inText, inLines, written?_stops_eq_none inText isLast,
    written?_stops_eq_none inLines isLast, ?_, ?_⟩
  · rw [ofText]
    simp only [written?, first, last, Piece.shown?_plain, Option.bind_some,
      Option.map_some, String.append_empty, Option.some.injEq]
    rw [← String.toList_inj]
    simp [covered, highlight, source]
  · rw [ofLines]
    simp [written?, first, last]

/--
Every number that is shown from one has a next word, and the bound is sharp.

For a source of up to 2 ^ 32 - 2 bytes and any highlights, every line and column has a
next word, so both reports show what they show whatever becomes of an overflow, and
that is each number itself, one higher. A source may have a byte more and still be
indexed, and then the column after its last byte may have no next word: a report with
this column is not shown, or shows zero in its place.
-/
theorem numbers_from_one_fit :
    (∀ (source : String) (highlights : List Highlight),
      source.utf8ByteSize ≤ 2 ^ 32 - 2 →
      let shown := records highlights (some (.ofText source))
      let byLine := linesPieces highlights (.ofText source)
      (∀ number ∈ numbersOf (textPieces shown), number + 1 ≤ 2 ^ 32 - 1) ∧
        (∀ number ∈ numbersOf byLine, number + 1 ≤ 2 ^ 32 - 1) ∧
        (∀ overflow,
          written? overflow (textPieces shown) = some (text shown) ∧
            written? overflow byLine =
              some (lines highlights (.ofText source))) ∧
        text shown = written (· + 1) (textPieces shown) ∧
        lines highlights (.ofText source) = written (· + 1) byLine) ∧
      ∃ (source : String) (highlight : Highlight),
        let shown := records [highlight] (some (.ofText source))
        let byLine := linesPieces [highlight] (.ofText source)
        let covered := (highlight.span.slice? source).getD ""
        source.utf8ByteSize = 2 ^ 32 - 1 ∧
          (LineIndex.ofSource source).Addressable ∧
          2 ^ 32 - 1 ∈ numbersOf (textPieces shown) ∧
          2 ^ 32 - 1 ∈ numbersOf byLine ∧
          written? .stops (textPieces shown) = none ∧
          written? .stops byLine = none ∧
          written? .wraps (textPieces shown) =
            some ("1:1-1:0 CG_KEYWORD '" ++ covered ++ "'\n") ∧
          written? .wraps byLine = some "1: 1-0:keyword\n" := by
  constructor
  · intro source highlights short shown byLine
    have inText (number : Nat) (member : number ∈ numbersOf (textPieces shown)) :
        number + 1 ≤ 2 ^ 32 - 1 := by
      have atMost := numbersOf_textPieces_le source highlights number member
      omega
    have inLines (number : Nat) (member : number ∈ numbersOf byLine) :
        number + 1 ≤ 2 ^ 32 - 1 := by
      have atMost := numbersOf_linesPieces_le source highlights number member
      omega
    have fitText (number : Nat) (member : number ∈ numbersOf (textPieces shown)) :
        number + 1 < offsetLimit :=
      Nat.lt_succ_of_le (inText number member)
    have fitLines (number : Nat) (member : number ∈ numbersOf byLine) :
        number + 1 < offsetLimit :=
      Nat.lt_succ_of_le (inLines number member)
    have exactText : text shown = written (· + 1) (textPieces shown) := by
      rw [text_eq_written, written_ordinal_of_fit fitText]
    have exactLines :
        lines highlights (.ofText source) = written (· + 1) byLine := by
      rw [lines_eq_written, written_ordinal_of_fit fitLines]
    refine ⟨inText, inLines, fun overflow => ⟨?_, ?_⟩, exactText, exactLines⟩
    · rw [exactText, written?_of_fit overflow fitText]
    · rw [exactLines, written?_of_fit overflow fitLines]
  · have short : 2 ^ 32 - 1 < offsetLimit := by
      decide
    refine ⟨letters (2 ^ 32 - 1), overLetters (2 ^ 32 - 1) short,
      utf8ByteSize_letters _, ?_, overLetters_overflows short (by decide)⟩
    rw [ofSource_letters]
    exact ⟨short, by simp [offsetLimit]⟩

/-- A highlight that starts in the last line and runs past the end of a short source. -/
theorem numbers_from_one_fit_pastEnd :
    let source := "a\nbc"
    let highlight : Highlight := ⟨.ofTested 3 40 (.refl true), .keyword⟩
    let shown := records [highlight] (some (.ofText source))
    let byLine := linesPieces [highlight] (.ofText source)
    source.utf8ByteSize ≤ 2 ^ 32 - 2 ∧
      numbersOf (textPieces shown) = [1, 1, 1, 2] ∧
      numbersOf byLine = [1, 1, 2] ∧
      ∀ overflow,
        written? overflow (textPieces shown) = some "2:2-2:3 CG_KEYWORD ''\n" ∧
          written? overflow byLine = some "2: 2-3:keyword\n" := by
  intro source highlight shown byLine
  have short : source.utf8ByteSize ≤ 2 ^ 32 - 2 := by
    decide +kernel
  have asText : text shown = "2:2-2:3 CG_KEYWORD ''\n" := by
    decide +kernel
  have asLines : lines [highlight] (.ofText source) = "2: 2-3:keyword\n" := by
    decide +kernel
  refine ⟨short, by decide +kernel, by decide +kernel, ?_⟩
  rw [← asText, ← asLines]
  exact (numbers_from_one_fit.1 source [highlight] short).2.2.1

end Report

end ShaderTint
