import ShaderTint.Proofs.Source.LineTable

namespace ShaderTint

/-!
# The lines of a source

A line runs from its start to the next newline, or to the end of the source if
there is none. Said of the bytes alone this is `IsLine`; lines told apart by number
lie apart in the source, and every offset lies in one of them or right after it.

Main statements: `LineIndex.isLine_of_lineRange?` says that the ranges that a line
index hands out are the lines of its source, `LineIndex.position_of_isLine` and
`LineIndex.exists_lineRange?_position` that positions count from their starts.
-/

/-- A line has one start. -/
theorem StartsLine.unique
    {bytes : List UInt8}
    {line start other : Nat}
    (starts : StartsLine bytes line start)
    (startsToo : StartsLine bytes line other) :
    start = other := by
  apply Nat.le_antisymm
  · apply StartsLine.le_offset
    rw [startsToo.count_before]
    exact starts
  · apply StartsLine.le_offset
    rw [starts.count_before]
    exact startsToo

/-- Fewer bytes hold no more newlines. -/
theorem count_take_mono
    (bytes : List UInt8)
    {first last : Nat}
    (ordered : first ≤ last) :
    (bytes.take first).count newline ≤ (bytes.take last).count newline :=
  ((List.take_prefix_take_left ordered).sublist).count_le newline

/-- The newlines before an offset, counted up to an earlier offset and from there. -/
theorem count_take_split
    (bytes : List UInt8)
    {first last : Nat}
    (ordered : first ≤ last) :
    (bytes.take last).count newline =
      (bytes.take first).count newline +
        ((bytes.drop first).take (last - first)).count newline := by
  rw [← List.count_append, ← List.take_add, Nat.add_sub_cancel' ordered]

/-- One more byte counts if it is a newline. -/
theorem count_take_succ_of_newline
    {bytes : List UInt8}
    {offset : Nat}
    (isNewline : bytes[offset]? = some newline) :
    (bytes.take (offset + 1)).count newline =
      (bytes.take offset).count newline + 1 := by
  rw [List.take_add_one, isNewline, List.count_append]
  rfl

/-- A later line starts later. -/
theorem StartsLine.lt_of_line_lt
    {bytes : List UInt8}
    {line later start next : Nat}
    (starts : StartsLine bytes line start)
    (startsLater : StartsLine bytes later next)
    (ordered : line < later) :
    start < next := by
  apply Nat.lt_of_not_le
  intro notBefore
  have counted := count_take_mono bytes notBefore
  rw [starts.count_before, startsLater.count_before] at counted
  exact Nat.not_lt_of_le counted ordered

/-- Lines after the first one do not start at the start of the source. -/
theorem StartsLine.pos
    {bytes : List UInt8}
    {line start : Nat}
    (starts : StartsLine bytes (line + 1) start) :
    0 < start :=
  Nat.zero_lt_of_lt
    ((StartsLine.zero bytes).lt_of_line_lt starts (Nat.succ_pos line))

/-- The bytes of a range. -/
def LineRange.bytesIn
    (range : LineRange)
    (bytes : List UInt8) :
    List UInt8 :=
  (bytes.drop range.start).take (range.stop - range.start)

/-- A range is the line with this number, without its newline. -/
structure IsLine
    (bytes : List UInt8)
    (line : Nat)
    (range : LineRange) :
    Prop where
  starts : StartsLine bytes line range.start
  start_le_stop : range.start ≤ range.stop
  stop_le : range.stop ≤ bytes.length
  /-- There is no newline in it. -/
  unbroken : newline ∉ range.bytesIn bytes
  /-- It runs up to a newline or, if it is the last line, to the end of the source. -/
  ends :
    bytes[range.stop]? = some newline ∨
      range.stop = bytes.length ∧ line = bytes.count newline

namespace IsLine

variable {bytes : List UInt8} {line : Nat} {range : LineRange}

/-- The offsets of a line, and the one after them, have its number of newlines before them. -/
theorem count_take
    (isLine : IsLine bytes line range)
    {offset : Nat}
    (fromStart : range.start ≤ offset)
    (toStop : offset ≤ range.stop) :
    (bytes.take offset).count newline = line := by
  have noneBetween :
      newline ∉ (bytes.drop range.start).take (offset - range.start) := by
    intro member
    exact isLine.unbroken
      (List.take_subset_take_left _ (Nat.sub_le_sub_right toStop _) member)
  rw [count_take_split bytes fromStart, isLine.starts.count_before,
    List.count_eq_zero.mpr noneBetween]
  rfl

/-- Lines are numbered by bytes of the source. -/
theorem line_le
    (isLine : IsLine bytes line range) :
    line ≤ bytes.length := by
  rw [← isLine.starts.count_before]
  exact Nat.le_trans List.count_le_length
    (List.length_take_le' range.start bytes)

/-- Offsets with a line's number of newlines before them do not lie beyond it. -/
theorem le_stop_of_count
    (isLine : IsLine bytes line range)
    {offset : Nat}
    (inside : offset ≤ bytes.length)
    (counted : (bytes.take offset).count newline = line) :
    offset ≤ range.stop := by
  rcases isLine.ends with isNewline | ⟨atEnd, _⟩
  · apply Nat.le_of_not_lt
    intro beyond
    have more := count_take_mono bytes (Nat.succ_le_of_lt beyond)
    rw [count_take_succ_of_newline isNewline, counted,
      isLine.count_take isLine.start_le_stop (Nat.le_refl _)] at more
    exact Nat.not_succ_le_self line more
  · exact atEnd.symm ▸ inside

/-- A line ends before a later one starts. -/
theorem stop_lt_start
    (isLine : IsLine bytes line range)
    {later : Nat}
    {next : LineRange}
    (isLater : IsLine bytes later next)
    (ordered : line < later) :
    range.stop < next.start := by
  apply Nat.lt_of_not_le
  intro notBefore
  have counted := count_take_mono bytes notBefore
  rw [isLine.count_take isLine.start_le_stop (Nat.le_refl _),
    isLater.starts.count_before] at counted
  exact Nat.not_lt_of_le counted ordered

/-- The byte at an offset of a line is not a newline. -/
theorem exists_byte
    (isLine : IsLine bytes line range)
    {offset : Nat}
    (fromStart : range.start ≤ offset)
    (beforeStop : offset < range.stop) :
    ∃ byte, bytes[offset]? = some byte ∧ byte ≠ newline := by
  have inside : offset < bytes.length :=
    Nat.lt_of_lt_of_le beforeStop isLine.stop_le
  refine ⟨bytes.get ⟨offset, inside⟩, List.getElem?_eq_getElem inside, ?_⟩
  intro isNewline
  apply isLine.unbroken
  apply List.mem_of_getElem? (i := offset - range.start)
  rw [LineRange.bytesIn,
    List.getElem?_take_of_lt (Nat.sub_lt_sub_right fromStart beforeStop),
    List.getElem?_drop, Nat.add_sub_cancel' fromStart, ← isNewline]
  exact List.getElem?_eq_getElem inside

/-- The offset of a byte that is not a newline lies in the line of the offset. -/
theorem lt_stop_of_byte
    (isLine : IsLine bytes line range)
    {offset : Nat}
    (toStop : offset ≤ range.stop)
    {byte : UInt8}
    (found : bytes[offset]? = some byte)
    (other : byte ≠ newline) :
    offset < range.stop := by
  apply Nat.lt_of_le_of_ne toStop
  intro atStop
  subst atStop
  rcases isLine.ends with isNewline | ⟨atEnd, _⟩
  · rw [isNewline] at found
    exact other (Option.some.inj found).symm
  · rw [List.getElem?_eq_none (Nat.le_of_eq atEnd.symm)] at found
    contradiction

end IsLine

namespace LineIndex

/-- Every entry of the table is the start of its line. -/
theorem startsLine_starts
    {bytes : List UInt8}
    {line start : Nat}
    (entry : (ofBytes bytes).starts[line]? = some start) :
    StartsLine bytes line start := by
  have inTable : (0 :: startsFrom 0 bytes)[line]? = some start := by
    rw [← entry]
    exact List.getElem?_toArray.symm
  obtain ⟨offset, same, starts⟩ := startsLine_of_getElem? inTable
  rw [Nat.zero_add] at same
  exact same.symm ▸ starts

/-- Every entry of the table is the start of a range. -/
theorem exists_lineRange?_of_start
    {index : LineIndex}
    {line start : Nat}
    (entry : index.starts[line]? = some start) :
    ∃ stop, index.lineRange? line = some ⟨start, stop⟩ := by
  unfold lineRange?
  rw [entry]
  cases index.starts[line + 1]? with
  | none =>
      exact ⟨_, rfl⟩
  | some next =>
      exact ⟨_, rfl⟩

/-- There is a range for every line. -/
theorem exists_lineRange?_of_counted
    {index : LineIndex}
    {line : Nat}
    (isCounted : line < index.lineCount) :
    ∃ range, index.lineRange? line = some range := by
  obtain ⟨stop, found⟩ :=
    exists_lineRange?_of_start (Array.getElem?_eq_getElem isCounted)
  exact ⟨_, found⟩

/-- There is a range for every line and for nothing else. -/
theorem isSome_lineRange?_iff
    {index : LineIndex}
    {line : Nat} :
    (index.lineRange? line).isSome = true ↔ line < index.lineCount := by
  constructor
  · intro found
    apply Nat.lt_of_not_le
    intro beyond
    have missing : index.starts[line]? = none :=
      Array.getElem?_eq_none beyond
    simp [lineRange?, missing] at found
  · intro isCounted
    exact Option.isSome_iff_exists.mpr (exists_lineRange?_of_counted isCounted)

/-- A line that another one follows ends at the newline before that one. -/
theorem isLine_of_next
    {bytes : List UInt8}
    {line start next : Nat}
    (starts : StartsLine bytes line start)
    (startsNext : StartsLine bytes (line + 1) next) :
    IsLine bytes line ⟨start, next - 1⟩ := by
  have nextPositive : 0 < next :=
    startsNext.pos
  have isNewline : bytes[next - 1]? = some newline :=
    startsNext.opens.resolve_left (Nat.ne_of_gt nextPositive)
  have counted : (bytes.take (next - 1)).count newline = line := by
    have oneMore := count_take_succ_of_newline isNewline
    rw [Nat.sub_add_cancel nextPositive, startsNext.count_before] at oneMore
    exact (Nat.succ.inj oneMore).symm
  have ordered : start ≤ next - 1 := by
    apply StartsLine.le_offset
    rw [counted]
    exact starts
  refine ⟨starts, ordered, ?_, ?_, .inl isNewline⟩
  · obtain ⟨inside, _⟩ := List.getElem?_eq_some_iff.mp isNewline
    exact Nat.le_of_lt inside
  · rw [count_take_split bytes ordered, starts.count_before] at counted
    exact List.count_eq_zero.mp (Nat.add_eq_left.mp counted)

/-- The line with all newlines before it ends with the source. -/
theorem isLine_of_last
    {bytes : List UInt8}
    {start : Nat}
    (starts : StartsLine bytes (bytes.count newline) start) :
    IsLine bytes (bytes.count newline) ⟨start, bytes.length⟩ := by
  have ordered : start ≤ bytes.length := by
    apply StartsLine.le_offset
    rw [List.take_length]
    exact starts
  refine ⟨starts, ordered, Nat.le_refl _, ?_, .inr ⟨rfl, rfl⟩⟩
  have counted := count_take_split bytes ordered
  rw [List.take_length, starts.count_before] at counted
  exact List.count_eq_zero.mp (Nat.add_eq_left.mp counted.symm)

/-- The ranges that a line index hands out are the lines of its source. -/
theorem isLine_of_lineRange?
    {bytes : List UInt8}
    {line : Nat}
    {range : LineRange}
    (found : (ofBytes bytes).lineRange? line = some range) :
    IsLine bytes line range := by
  unfold lineRange? at found
  split at found
  · next start next entry nextEntry =>
      cases found
      exact isLine_of_next (startsLine_starts entry)
        (startsLine_starts nextEntry)
  · next start entry noNext =>
      cases found
      have starts := startsLine_starts entry
      have isLast : line = bytes.count newline := by
        have counted := Array.getElem?_eq_none_iff.mp noNext
        have isCounted := (Array.getElem?_eq_some_iff.mp entry).1
        have count := lineCount_ofBytes bytes
        rw [lineCount] at count
        omega
      subst isLast
      exact isLine_of_last starts
  · contradiction

/-- The positions of a line count from its start. -/
theorem position_of_isLine
    {bytes : List UInt8}
    {line : Nat}
    {range : LineRange}
    (isLine : IsLine bytes line range)
    {offset : Nat}
    (fromStart : range.start ≤ offset)
    (toStop : offset ≤ range.stop) :
    (ofBytes bytes).position offset = ⟨line, offset - range.start⟩ := by
  obtain ⟨counted, start, _, starts, column⟩ :=
    position_eq bytes (Nat.le_trans toStop isLine.stop_le)
  rw [isLine.count_take fromStart toStop] at counted
  rw [counted] at starts
  obtain rfl := starts.unique isLine.starts
  revert counted column
  cases (ofBytes bytes).position offset with
  | mk placedLine placedColumn =>
      rintro rfl column
      rw [← column, Nat.add_sub_cancel_left]

/-- Offsets past the end stand at the end. -/
theorem position_min
    (bytes : List UInt8)
    (offset : Nat) :
    (ofBytes bytes).position offset =
      (ofBytes bytes).position (min offset bytes.length) := by
  unfold position ofBytes
  rw [Nat.min_assoc, Nat.min_self]

/-- Every position lies in a line, as far from its start as the column says. -/
theorem exists_lineRange?_position
    (bytes : List UInt8)
    (offset : Nat) :
    let position := (ofBytes bytes).position offset
    ∃ range,
      (ofBytes bytes).lineRange? position.line = some range ∧
        range.start + position.column = min offset bytes.length ∧
        min offset bytes.length ≤ range.stop := by
  intro position
  have inside := Nat.min_le_right offset bytes.length
  have clamped :
      position = (ofBytes bytes).position (min offset bytes.length) :=
    position_min bytes offset
  obtain ⟨counted, start, entry, _, column⟩ := position_eq bytes inside
  rw [← clamped] at counted entry column
  obtain ⟨stop, found⟩ := exists_lineRange?_of_start entry
  have isLine := isLine_of_lineRange? found
  exact ⟨⟨start, stop⟩, found, column,
    isLine.le_stop_of_count inside counted.symm⟩

/-- Every position lies in a line of the index. -/
theorem line_position_lt
    (bytes : List UInt8)
    (offset : Nat) :
    ((ofBytes bytes).position offset).line < (ofBytes bytes).lineCount := by
  obtain ⟨range, found, _⟩ := exists_lineRange?_position bytes offset
  apply isSome_lineRange?_iff.mp
  rw [found]
  rfl

end LineIndex

end ShaderTint
