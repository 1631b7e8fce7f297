import Mathlib.Data.List.Basic
import Mathlib.Order.Interval.Set.LinearOrder
import ShaderTint.Proofs.Source.Positions

namespace ShaderTint

/-!
# Stretches of lines

A highlight is split into stretches of lines by the positions of its ends. What comes
out can be told without positions: the stretch that it has of a line is what the two
have in common, and there is none where they have no byte in common.

Main statements: `LineIndex.stretches_eq` says so, and
`LineIndex.exists_stretch_covering_iff` says which bytes the stretches cover together.
-/

/-- What a highlight and a line have in common, as columns of the line. -/
def LineRange.clip?
    (range : LineRange)
    (highlight : Highlight) :
    Option LineSpan :=
  let start := max range.start highlight.span.start
  let stop := min range.stop highlight.span.stop
  if start < stop then
    some {
      startColumn := start - range.start
      stopColumn := stop - range.start
      tag := highlight.tag
    }
  else
    none

/-- The offsets of a stretch of a line. -/
def LineRange.offsets
    (range : LineRange)
    (span : LineSpan) :
    Set Nat :=
  Set.Ico (range.start + span.startColumn) (range.start + span.stopColumn)

namespace LineRange

variable {range : LineRange} {highlight : Highlight} {span : LineSpan}

/-- When and to which columns a highlight is clipped. -/
theorem clip?_eq_some_iff :
    range.clip? highlight = some span ↔
      max range.start highlight.span.start <
          min range.stop highlight.span.stop ∧
        range.start + span.startColumn =
          max range.start highlight.span.start ∧
        range.start + span.stopColumn =
          min range.stop highlight.span.stop ∧
        span.tag = highlight.tag := by
  obtain ⟨startColumn, stopColumn, tag⟩ := span
  simp only [clip?, Option.ite_none_right_eq_some, Option.some.injEq,
    LineSpan.mk.injEq]
  constructor
  · rintro ⟨common, rfl, rfl, rfl⟩
    exact ⟨common, by omega, by omega, rfl⟩
  · rintro ⟨common, starts, stops, rfl⟩
    exact ⟨common, by omega, by omega, rfl⟩

/-- A clipped highlight covers what the line and the highlight have in common. -/
theorem offsets_of_clip?
    (clipped : range.clip? highlight = some span) :
    range.offsets span =
      Set.Ico range.start range.stop ∩
        Set.Ico highlight.span.start highlight.span.stop := by
  obtain ⟨_, starts, stops, _⟩ := clip?_eq_some_iff.mp clipped
  rw [offsets, starts, stops, Set.Ico_inter_Ico]

/-- A highlight is clipped to something just where it has a byte in common with the line. -/
theorem isSome_clip?_iff :
    (range.clip? highlight).isSome = true ↔
      (Set.Ico range.start range.stop ∩
        Set.Ico highlight.span.start highlight.span.stop).Nonempty := by
  rw [Set.Ico_inter_Ico, Set.nonempty_Ico, clip?, Option.isSome_ite]

/-- A clipped highlight is not empty and ends where the line does or before. -/
theorem columns_of_clip?
    (clipped : range.clip? highlight = some span) :
    span.startColumn < span.stopColumn ∧
      range.start + span.stopColumn ≤ range.stop := by
  obtain ⟨common, starts, stops, _⟩ := clip?_eq_some_iff.mp clipped
  omega

end LineRange

namespace LineIndex

/-- What a highlight has in common with the line of this number, if there is one. -/
def clip?
    (index : LineIndex)
    (highlight : Highlight)
    (line : Nat) :
    Option LineSpan :=
  (index.lineRange? line).bind (·.clip? highlight)

/-- A line with a range is clipped by its range. -/
theorem clip?_of_found
    {index : LineIndex}
    {line : Nat}
    {range : LineRange}
    (found : index.lineRange? line = some range)
    (highlight : Highlight) :
    index.clip? highlight line = range.clip? highlight := by
  rw [clip?, found, Option.bind_some]

/-- There is nothing to have in common with past the last line. -/
theorem clip?_eq_none_of_not_counted
    {index : LineIndex}
    {line : Nat}
    (notCounted : ¬ line < index.lineCount)
    (highlight : Highlight) :
    index.clip? highlight line = none := by
  rw [← isSome_lineRange?_iff, Option.not_isSome_iff_eq_none] at notCounted
  rw [clip?, notCounted, Option.bind_none]

section

variable {bytes : List UInt8} {highlight : Highlight} {line : Nat}

/-- The end of a highlight stands in the line of its start or in a later one. -/
theorem line_position_mono
    (bytes : List UInt8)
    {first last : Nat}
    (ordered : first ≤ last) :
    ((ofBytes bytes).position first).line ≤
      ((ofBytes bytes).position last).line := by
  rw [line_position_eq, line_position_eq]
  exact count_take_mono bytes ordered

/-- A highlight has nothing in common with the lines before its start. -/
theorem clip?_eq_none_before
    (before :
      line < ((ofBytes bytes).position highlight.span.start).line) :
    (ofBytes bytes).clip? highlight line = none := by
  obtain ⟨startRange, found, column, _⟩ :=
    exists_lineRange?_position bytes highlight.span.start
  have startLine := isLine_of_lineRange? found
  rw [clip?, Option.bind_eq_none_iff]
  intro range foundLine
  have apart := (isLine_of_lineRange? foundLine).stop_lt_start startLine before
  rw [LineRange.clip?, if_neg]
  omega

/-- A highlight has nothing in common with the lines after its end. -/
theorem clip?_eq_none_after
    (after :
      ((ofBytes bytes).position highlight.span.stop).line < line) :
    (ofBytes bytes).clip? highlight line = none := by
  obtain ⟨stopRange, found, _, toStop⟩ :=
    exists_lineRange?_position bytes highlight.span.stop
  have stopLine := isLine_of_lineRange? found
  rw [clip?, Option.bind_eq_none_iff]
  intro range foundLine
  have isLine := isLine_of_lineRange? foundLine
  have apart := stopLine.stop_lt_start isLine after
  have inside := isLine.stop_le
  have ordered := isLine.start_le_stop
  rw [LineRange.clip?, if_neg]
  omega

/-- Where a stretch that comes from an offset starts in a line. -/
theorem start_of_stretch
    {range : LineRange}
    (found : (ofBytes bytes).lineRange? line = some range)
    {offset : Nat}
    {first : Position}
    (isFirst : (ofBytes bytes).position offset = first)
    (fromFirst : first.line ≤ line) :
    range.start + (if line = first.line then first.column else 0) =
      max range.start (min offset bytes.length) := by
  subst isFirst
  obtain ⟨firstRange, firstFound, column, toStop⟩ :=
    exists_lineRange?_position bytes offset
  split
  · next sameLine =>
      subst sameLine
      rw [found] at firstFound
      cases firstFound
      rw [column, Nat.max_eq_right (column ▸ Nat.le_add_right _ _)]
  · next otherLine =>
      have apart :=
        (isLine_of_lineRange? firstFound).stop_lt_start
          (isLine_of_lineRange? found)
          (Nat.lt_of_le_of_ne fromFirst (Ne.symm otherLine))
      rw [Nat.max_eq_left (Nat.le_trans toStop (Nat.le_of_lt apart))]
      rfl

/-- Where a stretch that goes on to an offset stops in a line. -/
theorem stop_of_stretch
    {range : LineRange}
    (found : (ofBytes bytes).lineRange? line = some range)
    {offset : Nat}
    {last : Position}
    (isLast : (ofBytes bytes).position offset = last)
    (toLast : line ≤ last.line) :
    range.start +
        (if line = last.line then last.column else range.stop - range.start) =
      min range.stop offset := by
  subst isLast
  obtain ⟨lastRange, lastFound, column, toStop⟩ :=
    exists_lineRange?_position bytes offset
  have isLine := isLine_of_lineRange? found
  have clamped : min range.stop (min offset bytes.length) = min range.stop offset := by
    rw [Nat.min_left_comm, Nat.min_eq_left isLine.stop_le, Nat.min_comm]
  rw [← clamped]
  split
  · next sameLine =>
      subst sameLine
      rw [found] at lastFound
      cases lastFound
      rw [column, Nat.min_eq_right toStop]
  · next otherLine =>
      have apart :=
        isLine.stop_lt_start (isLine_of_lineRange? lastFound)
          (Nat.lt_of_le_of_ne toLast otherLine)
      have before : range.stop ≤ min offset bytes.length :=
        Nat.le_trans (Nat.le_of_lt apart) (column ▸ Nat.le_add_right _ _)
      rw [Nat.min_eq_left before, Nat.add_sub_cancel' isLine.start_le_stop]

/-- A start that is cut back to the end leaves nothing in common with a line. -/
theorem uncut_of_common
    {range : LineRange}
    {start stop length : Nat}
    (inside : range.stop ≤ length)
    (common : max range.start (min start length) < min range.stop stop) :
    min start length = start := by
  apply Nat.min_eq_left
  apply Nat.le_of_not_lt
  intro pastEnd
  rw [Nat.min_eq_right (Nat.le_of_lt pastEnd)] at common
  have beforeStop : length < range.stop :=
    Nat.lt_of_le_of_lt (Nat.le_max_right _ _)
      (Nat.lt_of_lt_of_le common (Nat.min_le_left _ _))
  exact Nat.not_lt_of_le inside beforeStop

/-- When there is a stretch of a line between two positions, and which. -/
theorem stretch?_eq_some_iff
    {index : LineIndex}
    {range : LineRange}
    (found : index.lineRange? line = some range)
    {first last : Position}
    {tag : Tag}
    {span : LineSpan} :
    index.stretch? first last tag line = some span ↔
      span.startColumn < span.stopColumn ∧
        span.startColumn =
          (if line = first.line then first.column else 0) ∧
        span.stopColumn =
          (if line = last.line then last.column
            else range.stop - range.start) ∧
        span.tag = tag := by
  obtain ⟨startColumn, stopColumn, spanTag⟩ := span
  simp only [stretch?, found, Option.ite_none_right_eq_some,
    Option.some.injEq, LineSpan.mk.injEq]
  constructor
  · rintro ⟨nonempty, rfl, rfl, rfl⟩
    exact ⟨nonempty, rfl, rfl, rfl⟩
  · rintro ⟨nonempty, rfl, rfl, rfl⟩
    exact ⟨nonempty, rfl, rfl, rfl⟩

/-- Between the positions of its ends, a highlight has the stretches it is clipped to. -/
theorem stretch?_eq_clip?
    (fromFirst :
      ((ofBytes bytes).position highlight.span.start).line ≤ line)
    (toLast :
      line ≤ ((ofBytes bytes).position highlight.span.stop).line) :
    (ofBytes bytes).stretch?
        ((ofBytes bytes).position highlight.span.start)
        ((ofBytes bytes).position highlight.span.stop)
        highlight.tag line =
      (ofBytes bytes).clip? highlight line := by
  have isCounted : line < (ofBytes bytes).lineCount :=
    Nat.lt_of_le_of_lt toLast (line_position_lt bytes _)
  obtain ⟨range, found⟩ := exists_lineRange?_of_counted isCounted
  have starts := start_of_stretch found rfl fromFirst
  have stops := stop_of_stretch found rfl toLast
  have inside := (isLine_of_lineRange? found).stop_le
  -- The start comes cut back to the end of the source, and clipping does not cut it
  -- back. Where there is anything in common it was not past the end.
  ext span
  rw [clip?, found, Option.bind_some, LineRange.clip?_eq_some_iff,
    stretch?_eq_some_iff found]
  constructor
  · rintro ⟨nonempty, startAt, stopAt, sameTag⟩
    rw [← startAt] at starts
    rw [← stopAt] at stops
    have common := Nat.add_lt_add_left nonempty range.start
    rw [starts, stops] at common
    rw [uncut_of_common inside common] at starts common
    exact ⟨common, starts, stops, sameTag⟩
  · rintro ⟨common, startAt, stopAt, sameTag⟩
    have stillCommon :
        max range.start (min highlight.span.start bytes.length) <
          min range.stop highlight.span.stop :=
      Nat.lt_of_le_of_lt
        (Nat.max_le.mpr ⟨Nat.le_max_left _ _,
          Nat.le_trans (Nat.min_le_left _ _) (Nat.le_max_right _ _)⟩)
        common
    rw [uncut_of_common inside stillCommon] at starts
    refine ⟨?_, Nat.add_left_cancel (startAt.trans starts.symm),
      Nat.add_left_cancel (stopAt.trans stops.symm), sameTag⟩
    apply Nat.lt_of_add_lt_add_left (n := range.start)
    rw [startAt, stopAt]
    exact common

end

/-- All numbers below a count: those before a window, in it and after it. -/
theorem range_parted
    {first last count : Nat}
    (ordered : first ≤ last)
    (isCounted : last < count) :
    List.range count =
      List.range' 0 first ++
        (List.range' first (last + 1 - first) ++
          List.range' (last + 1) (count - (last + 1))) := by
  obtain ⟨width, rfl⟩ := Nat.exists_eq_add_of_le ordered
  obtain ⟨rest, rfl⟩ := Nat.exists_eq_add_of_lt isCounted
  have widthEq : first + width + 1 - first = width + 1 := by
    omega
  have restEq : first + width + rest + 1 - (first + width + 1) = rest := by
    omega
  rw [widthEq, restEq, Nat.add_assoc first width 1, List.range'_append_1,
    List.range_eq_range']
  have whole := List.range'_append_1 (s := 0) (m := first) (n := width + 1 + rest)
  rw [Nat.zero_add] at whole
  rw [whole]
  congr 1
  omega

/-- A highlight has, line by line, the stretches that it is clipped to. -/
theorem stretches_eq
    (bytes : List UInt8)
    (highlight : Highlight) :
    (ofBytes bytes).stretches highlight =
      (List.range (ofBytes bytes).lineCount).filterMap fun line =>
        ((ofBytes bytes).clip? highlight line).map (line, ·) := by
  let first := ((ofBytes bytes).position highlight.span.start).line
  let last := ((ofBytes bytes).position highlight.span.stop).line
  let count := (ofBytes bytes).lineCount
  have ordered : first ≤ last :=
    line_position_mono bytes highlight.span.start_le_stop
  have isCounted : last < count :=
    line_position_lt bytes highlight.span.stop
  -- The lines before the start and after the end may be gone through as well.
  have parted :=
    range_parted ordered isCounted
  have nothing :
      ∀ lines : List Nat,
        (∀ line ∈ lines, (ofBytes bytes).clip? highlight line = none) →
        lines.filterMap
            (fun line => ((ofBytes bytes).clip? highlight line).map (line, ·)) =
          [] := by
    intro lines noneHere
    rw [List.filterMap_eq_nil_iff]
    intro line member
    rw [noneHere line member, Option.map_none]
  have beforeFirst := nothing (List.range' 0 first) (by
    intro line member
    rw [List.mem_range'_1] at member
    exact clip?_eq_none_before (by omega))
  have afterLast := nothing (List.range' (last + 1) (count - (last + 1))) (by
    intro line member
    rw [List.mem_range'_1] at member
    exact clip?_eq_none_after (by omega))
  rw [parted, List.filterMap_append, List.filterMap_append, beforeFirst,
    afterLast, List.nil_append, List.append_nil]
  apply List.filterMap_congr
  intro line member
  rw [List.mem_range'_1] at member
  rw [stretch?_eq_clip? (by omega) (by omega)]

/-- The stretches of a highlight are what it has in common with lines. -/
theorem mem_stretches_iff
    {bytes : List UInt8}
    {highlight : Highlight}
    {line : Nat}
    {span : LineSpan} :
    (line, span) ∈ (ofBytes bytes).stretches highlight ↔
      ∃ range,
        (ofBytes bytes).lineRange? line = some range ∧
          range.clip? highlight = some span := by
  rw [stretches_eq, List.mem_filterMap]
  constructor
  · rintro ⟨number, _, clipped⟩
    obtain ⟨_, clippedTo, ⟨⟩⟩ := Option.map_eq_some_iff.mp clipped
    exact Option.bind_eq_some_iff.mp clippedTo
  · rintro ⟨range, found, clipped⟩
    refine ⟨line, ?_, ?_⟩
    · rw [List.mem_range, ← isSome_lineRange?_iff, found]
      rfl
    · rw [clip?_of_found found, clipped, Option.map_some]

/-- A highlight has one stretch of a line at most. -/
theorem stretches_increasing
    (bytes : List UInt8)
    (highlight : Highlight) :
    ((ofBytes bytes).stretches highlight).Pairwise fun earlier later =>
      earlier.1 < later.1 := by
  rw [stretches_eq]
  apply List.pairwise_lt_range.filterMap
  intro earlier later ordered piece isPiece laterPiece isLaterPiece
  obtain ⟨_, _, rfl⟩ := Option.map_eq_some_iff.mp isPiece
  obtain ⟨_, _, rfl⟩ := Option.map_eq_some_iff.mp isLaterPiece
  exact ordered

/-- The stretches of a highlight cover its bytes in the source that are not newlines. -/
theorem exists_stretch_covering_iff
    {bytes : List UInt8}
    {highlight : Highlight}
    {offset : Nat} :
    (∃ line span range,
      (line, span) ∈ (ofBytes bytes).stretches highlight ∧
        (ofBytes bytes).lineRange? line = some range ∧
        offset ∈ range.offsets span) ↔
      offset ∈ Set.Ico highlight.span.start highlight.span.stop ∧
        ∃ byte, bytes[offset]? = some byte ∧ byte ≠ newline := by
  constructor
  · rintro ⟨line, span, range, added, found, covers⟩
    obtain ⟨_, foundAgain, clipped⟩ := mem_stretches_iff.mp added
    rw [found] at foundAgain
    cases foundAgain
    rw [LineRange.offsets_of_clip? clipped] at covers
    obtain ⟨inLine, inHighlight⟩ := covers
    exact ⟨inHighlight,
      (isLine_of_lineRange? found).exists_byte inLine.1 inLine.2⟩
  · rintro ⟨inHighlight, byte, isByte, other⟩
    have inside : offset ≤ bytes.length :=
      Nat.le_of_lt (List.getElem?_eq_some_iff.mp isByte).1
    obtain ⟨range, found, column, toStop⟩ :=
      exists_lineRange?_position bytes offset
    rw [Nat.min_eq_left inside] at column toStop
    have inLine : offset ∈ Set.Ico range.start range.stop :=
      ⟨column ▸ Nat.le_add_right _ _,
        (isLine_of_lineRange? found).lt_stop_of_byte toStop isByte other⟩
    have common := LineRange.isSome_clip?_iff.mpr ⟨offset, inLine, inHighlight⟩
    obtain ⟨span, clipped⟩ := Option.isSome_iff_exists.mp common
    refine ⟨_, span, range, mem_stretches_iff.mpr ⟨range, found, clipped⟩,
      found, ?_⟩
    rw [LineRange.offsets_of_clip? clipped]
    exact ⟨inLine, inHighlight⟩

end LineIndex

end ShaderTint
