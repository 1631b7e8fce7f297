import Mathlib.Logic.Equiv.Basic
import ShaderTint.Proofs.Source.LineTexts

namespace ShaderTint

/-!
# Offsets and positions

The offsets of a source, its end included, and the places in its lines are the same
thing told in two ways. A line index goes from one to the other by looking into a
table and by subtracting; neither can go wrong, since the table is that of the
source's own lines.

Main statement: `LineIndex.ofSource_describes`.
-/

/-- A position comes before another one, by line and then by column. -/
def Position.Before
    (left right : Position) :
    Prop :=
  left.line < right.line ∨
    left.line = right.line ∧ left.column < right.column

namespace LineIndex

/-- A position in a line, or right after its last byte. -/
def Admits
    (index : LineIndex)
    (position : Position) :
    Prop :=
  position.line < index.lineCount ∧
    ∃ range,
      index.lineRange? position.line = some range ∧
        position.column ≤ range.stop - range.start

/-- The offset of a position: its column, counted from the start of its line. -/
def offset?
    (index : LineIndex)
    (position : Position) :
    Option Nat :=
  (index.lineRange? position.line).map (·.start + position.column)

/-- A line index says of a source what its bytes say. -/
structure Describes
    (index : LineIndex)
    (source : String) :
    Prop where
  length_eq : index.length = source.utf8ByteSize
  first_start : index.starts[0]? = some 0
  starts_increasing : index.starts.toList.Pairwise (· < ·)
  lineCount_eq : index.lineCount = (bytesOf source).count newline + 1
  /-- The offsets up to the end and the places in lines correspond one to one. -/
  placed :
    ∃ placement :
        { offset // offset ≤ source.utf8ByteSize } ≃
          { position // index.Admits position },
      (∀ offset, (placement offset).val = index.position offset.val) ∧
        ∀ position,
          index.offset? position.val = some (placement.symm position).val
  position_increasing :
    ∀ earlier later,
      earlier < later →
      later ≤ source.utf8ByteSize →
      (index.position earlier).Before (index.position later)
  position_past_end :
    ∀ offset,
      source.utf8ByteSize ≤ offset →
      index.position offset = index.position source.utf8ByteSize
  line_eq :
    ∀ offset,
      (index.position offset).line =
        ((bytesOf source).take offset).count newline
  /-- The texts of the lines, joined by newlines, are the source. -/
  joined :
    ∃ texts : List String,
      texts.length = index.lineCount ∧
        (∀ line text,
          texts[line]? = some text →
          ∃ span : Span,
            index.lineRange? line = some ⟨span.start, span.stop⟩ ∧
              span.slice? source = some text) ∧
        "\n".intercalate texts = source
  /--
  Every offset parts the table into the starts it has reached and the others. It
  has reached the first one, so there is a last one that it has reached, and what
  lies between is its column.
  -/
  lookup_defined :
    ∀ offset ≤ index.length,
      let reached := index.starts.countP (· ≤ offset)
      (∀ line start,
        index.starts[line]? = some start →
        (start ≤ offset ↔ line < reached)) ∧
      0 < reached ∧
      ∃ start, index.starts[reached - 1]? = some start ∧ start ≤ offset
  /-- There are ranges for the lines alone. -/
  range_defined :
    ∀ line, (index.lineRange? line).isSome = true ↔ line < index.lineCount
  /-- A range is in order and within the source, and a byte ends it before the next one. -/
  range_ordered :
    ∀ line range,
      index.lineRange? line = some range →
      range.start ≤ range.stop ∧
        range.stop ≤ source.utf8ByteSize ∧
        ∀ next, index.starts[line + 1]? = some next → 0 < next
  starts_fit : ∀ start ∈ index.starts, start < offsetLimit
  position_fits :
    ∀ offset,
      (index.position offset).line < offsetLimit ∧
        (index.position offset).column < offsetLimit

section

variable (bytes : List UInt8)

/-- Later lines start later. -/
theorem starts_increasing :
    (ofBytes bytes).starts.toList.Pairwise (· < ·) := by
  rw [List.pairwise_iff_getElem]
  intro line later inside laterInside ordered
  apply StartsLine.lt_of_line_lt
    (startsLine_starts (Array.getElem?_eq_getElem inside))
    (startsLine_starts (Array.getElem?_eq_getElem laterInside)) ordered

/-- An offset has reached the starts of its own line and of the lines before. -/
theorem start_le_iff
    {line start : Nat}
    (entry : (ofBytes bytes).starts[line]? = some start)
    (offset : Nat) :
    start ≤ offset ↔
      line < (ofBytes bytes).starts.countP (· ≤ offset) := by
  have starts := startsLine_starts entry
  rw [countP_starts, Nat.lt_succ_iff]
  constructor
  · intro reached
    rw [← starts.count_before]
    exact count_take_mono bytes reached
  · intro counted
    obtain ⟨own, ownEntry⟩ := exists_getElem?_starts bytes offset
    have ownStarts := startsLine_starts ownEntry
    have ownReached := ownStarts.le_offset
    rcases Nat.eq_or_lt_of_le counted with isOwn | isEarlier
    · rw [← isOwn] at ownStarts
      exact starts.unique ownStarts ▸ ownReached
    · have before := starts.lt_of_line_lt ownStarts isEarlier
      exact Nat.le_trans (Nat.le_of_lt before) ownReached

/-- The last start that an offset has reached is an entry of the table. -/
theorem exists_reached_start
    (offset : Nat) :
    let reached := (ofBytes bytes).starts.countP (· ≤ offset)
    0 < reached ∧
      ∃ start,
        (ofBytes bytes).starts[reached - 1]? = some start ∧
          start ≤ offset := by
  intro reached
  have counted : reached = _ := countP_starts bytes offset
  obtain ⟨start, entry⟩ := exists_getElem?_starts bytes offset
  refine ⟨counted ▸ Nat.succ_pos _, start, ?_, (startsLine_starts entry).le_offset⟩
  rw [counted, Nat.add_sub_cancel]
  exact entry

/-- The place of an offset within the source leads back to the offset. -/
theorem offset?_position
    {offset : Nat}
    (inside : offset ≤ bytes.length) :
    (ofBytes bytes).Admits ((ofBytes bytes).position offset) ∧
      (ofBytes bytes).offset? ((ofBytes bytes).position offset) =
        some offset := by
  obtain ⟨range, found, column, toStop⟩ :=
    exists_lineRange?_position bytes offset
  rw [Nat.min_eq_left inside] at column toStop
  refine ⟨⟨line_position_lt bytes offset, range, found, ?_⟩, ?_⟩
  · exact Nat.le_sub_of_add_le' (column.symm ▸ toStop)
  · rw [offset?, found, Option.map_some, column]

/-- Every place in a line is the place of an offset within the source. -/
theorem exists_offset_of_admits
    {position : Position}
    (admits : (ofBytes bytes).Admits position) :
    ∃ offset ≤ bytes.length, (ofBytes bytes).position offset = position := by
  obtain ⟨_, range, found, short⟩ := admits
  have isLine := isLine_of_lineRange? found
  have toStop : range.start + position.column ≤ range.stop :=
    Nat.add_le_of_le_sub' isLine.start_le_stop short
  refine ⟨range.start + position.column,
    Nat.le_trans toStop isLine.stop_le, ?_⟩
  rw [position_of_isLine isLine (Nat.le_add_right _ _) toStop,
    Nat.add_sub_cancel_left]

/-- Offsets and places in lines correspond one to one. -/
theorem exists_placement :
    ∃ placement :
        { offset // offset ≤ bytes.length } ≃
          { position // (ofBytes bytes).Admits position },
      (∀ offset,
        (placement offset).val = (ofBytes bytes).position offset.val) ∧
      ∀ position,
        (ofBytes bytes).offset? position.val =
          some (placement.symm position).val := by
  let place :
      { offset // offset ≤ bytes.length } →
        { position // (ofBytes bytes).Admits position } :=
    fun offset =>
      ⟨(ofBytes bytes).position offset.val,
        (offset?_position bytes offset.property).1⟩
  have back :
      ∀ offset,
        (ofBytes bytes).offset? (place offset).val = some offset.val :=
    fun offset => (offset?_position bytes offset.property).2
  have bijective : Function.Bijective place := by
    constructor
    · intro offset other samePlace
      have backToo := back other
      rw [← samePlace, back offset] at backToo
      exact Subtype.ext (Option.some.inj backToo)
    · rintro ⟨position, admits⟩
      obtain ⟨offset, inside, placed⟩ := exists_offset_of_admits bytes admits
      exact ⟨⟨offset, inside⟩, Subtype.ext placed⟩
  refine ⟨Equiv.ofBijective place bijective, fun offset => rfl, ?_⟩
  intro position
  have placedBack :=
    back ((Equiv.ofBijective place bijective).symm position)
  rw [Equiv.ofBijective_apply_symm_apply place bijective] at placedBack
  exact placedBack

/-- The line of an offset has as many newlines before it as the offset. -/
theorem line_position_eq
    (offset : Nat) :
    ((ofBytes bytes).position offset).line =
      (bytes.take offset).count newline := by
  rw [position_min, line_position (Nat.min_le_right _ _), ← List.take_take,
    List.take_length]

/-- All offsets past the end have the place of the end. -/
theorem position_of_length_le
    {offset : Nat}
    (past : bytes.length ≤ offset) :
    (ofBytes bytes).position offset =
      (ofBytes bytes).position bytes.length := by
  rw [position_min, Nat.min_eq_right past]

/-- No line starts past the end of the source. -/
theorem start_le_length
    {line start : Nat}
    (entry : (ofBytes bytes).starts[line]? = some start) :
    start ≤ bytes.length := by
  obtain ⟨stop, found⟩ := exists_lineRange?_of_start entry
  have isLine := isLine_of_lineRange? found
  exact Nat.le_trans isLine.start_le_stop isLine.stop_le

/-- Lines and columns are numbered by bytes of the source. -/
theorem position_le_length
    (offset : Nat) :
    ((ofBytes bytes).position offset).line ≤ bytes.length ∧
      ((ofBytes bytes).position offset).column ≤ bytes.length := by
  obtain ⟨range, found, column, _⟩ := exists_lineRange?_position bytes offset
  constructor
  · exact (isLine_of_lineRange? found).line_le
  · have fromStart := Nat.le_add_left
      ((ofBytes bytes).position offset).column range.start
    rw [column] at fromStart
    exact Nat.le_trans fromStart (Nat.min_le_right _ _)

/-- Later offsets within the source have later places. -/
theorem position_before
    {earlier later : Nat}
    (ordered : earlier < later)
    (inside : later ≤ bytes.length) :
    ((ofBytes bytes).position earlier).Before
      ((ofBytes bytes).position later) := by
  have earlierInside : earlier ≤ bytes.length :=
    Nat.le_trans (Nat.le_of_lt ordered) inside
  have counted := count_take_mono bytes (Nat.le_of_lt ordered)
  rw [← line_position earlierInside, ← line_position inside] at counted
  rcases Nat.eq_or_lt_of_le counted with sameLine | laterLine
  · right
    refine ⟨sameLine, ?_⟩
    have back := (offset?_position bytes earlierInside).2
    have laterBack := (offset?_position bytes inside).2
    rw [offset?, Option.map_eq_some_iff] at back laterBack
    obtain ⟨range, found, column⟩ := back
    obtain ⟨laterRange, laterFound, laterColumn⟩ := laterBack
    rw [sameLine, laterFound] at found
    cases found
    omega
  · exact .inl laterLine

end

/-- The line index of a source that offsets can address says what its bytes say. -/
theorem ofSource_describes
    (source : String)
    (short : source.utf8ByteSize < offsetLimit) :
    (ofSource source).Describes source := by
  let bytes := bytesOf source
  exact {
    length_eq := rfl
    first_start := rfl
    starts_increasing := starts_increasing bytes
    lineCount_eq := lineCount_ofBytes bytes
    placed := exists_placement bytes
    position_increasing := fun _ _ ordered inside =>
      position_before bytes ordered inside
    position_past_end := fun _ past => position_of_length_le bytes past
    line_eq := line_position_eq bytes
    joined := exists_lineTexts short
    lookup_defined := fun offset _ =>
      ⟨fun _ _ entry => start_le_iff bytes entry offset,
        exists_reached_start bytes offset⟩
    range_defined := fun _ => isSome_lineRange?_iff
    range_ordered := by
      intro line range found
      have isLine : IsLine bytes line range := isLine_of_lineRange? found
      refine ⟨isLine.start_le_stop, isLine.stop_le, ?_⟩
      intro next nextEntry
      exact (startsLine_starts nextEntry).pos
    starts_fit := by
      intro start member
      obtain ⟨line, entry⟩ := Array.getElem?_of_mem member
      exact Nat.lt_of_le_of_lt (start_le_length bytes entry) short
    position_fits := by
      intro offset
      obtain ⟨line, column⟩ := position_le_length bytes offset
      exact ⟨Nat.lt_of_le_of_lt line short, Nat.lt_of_le_of_lt column short⟩
  }

/--
A source with a carriage return, a character of two bytes and a newline at its end,
which opens a last line without bytes.
-/
theorem ofSource_describes_emptyLastLine :
    let source := "a\r\né\n"
    source.utf8ByteSize < offsetLimit ∧
      (ofSource source).Describes source ∧
      (ofSource source).starts = #[0, 3, 6] ∧
      (ofSource source).lineRange? 0 = some ⟨0, 2⟩ ∧
      (ofSource source).position 5 = ⟨1, 2⟩ ∧
      (ofSource source).position 100 = ⟨2, 0⟩ := by
  intro source
  have short : source.utf8ByteSize < offsetLimit := by
    decide +kernel
  refine ⟨short, ofSource_describes source short, ?_⟩
  decide +kernel

end LineIndex

end ShaderTint
