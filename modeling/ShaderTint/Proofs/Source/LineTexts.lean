import Mathlib.Tactic.Choose
import ShaderTint.Proofs.Source.Lines
import ShaderTint.Proofs.Source.Slice

namespace ShaderTint

/-!
# The texts of lines

A newline is one byte, so a line cuts no character: its range is that of a text. The
newlines between the lines are all that the lines leave out.

Main statements: `LineIndex.intercalate_lineBytes` says that the bytes of the lines,
joined by newlines, are the source, and `LineIndex.exists_lineTexts` says so of
their texts.
-/

/-! ## Bytes of texts -/

/-- The bytes of a text are the bytes of its parts. -/
theorem bytesOf_append
    (first second : String) :
    bytesOf (first ++ second) = bytesOf first ++ bytesOf second := by
  simp only [bytesOf_eq_flatMap, String.toList_append, List.flatMap_append]

/-- Different texts have different bytes. -/
theorem bytesOf_injective
    {first second : String}
    (sameBytes : bytesOf first = bytesOf second) :
    first = second := by
  apply String.toByteArray_inj.mp
  exact ByteArray.ext (Array.toList_inj.mp sameBytes)

/-- The bytes of joined texts are the joined bytes. -/
theorem bytesOf_intercalate_newline
    (texts : List String) :
    bytesOf ("\n".intercalate texts) =
      [newline].intercalate (texts.map bytesOf) := by
  induction texts with
  | nil =>
      rfl
  | cons text rest inductionHypothesis =>
      cases rest with
      | nil =>
          rw [String.intercalate_singleton, List.map_singleton,
            List.intercalate_singleton]
      | cons next others =>
          rw [String.intercalate_cons_cons, bytesOf_append, bytesOf_append,
            inductionHypothesis]
          exact List.intercalate_cons_cons.symm

namespace OnBoundary

/-- A text starts at a boundary. -/
theorem zero
    (text : String) :
    OnBoundary text 0 :=
  ⟨"", text, by simp, rfl⟩

/-- A text ends at a boundary. -/
theorem length
    (text : String) :
    OnBoundary text (bytesOf text).length :=
  ⟨text, "", by simp, rfl⟩

/-- A character in front moves a boundary by the bytes of the character. -/
theorem cons
    {rest : List Char}
    {offset : Nat}
    (boundary : OnBoundary (String.ofList rest) offset)
    (character : Char) :
    OnBoundary (String.ofList (character :: rest))
      ((String.utf8EncodeChar character).length + offset) := by
  obtain ⟨before, after, split, rfl⟩ := boundary
  refine ⟨String.singleton character ++ before, after, ?_, ?_⟩
  · rw [String.append_assoc, ← split]
    simp
  · rw [String.utf8ByteSize_append, String.utf8ByteSize_singleton,
      String.length_utf8EncodeChar]

/-- A newline byte stands between two boundaries. -/
theorem of_newline
    {text : String}
    {offset : Nat}
    (isNewline : (bytesOf text)[offset]? = some newline) :
    OnBoundary text offset ∧ OnBoundary text (offset + 1) := by
  obtain ⟨characters, rfl⟩ : ∃ characters, text = String.ofList characters :=
    ⟨text.toList, by simp⟩
  rw [bytesOf_eq_flatMap, String.toList_ofList] at isNewline
  induction characters generalizing offset with
  | nil =>
      simp at isNewline
  | cons character rest inductionHypothesis =>
      rw [List.flatMap_cons] at isNewline
      -- Only the newline itself has the byte in its encoding, and no other with it.
      rcases Nat.lt_or_ge offset (String.utf8EncodeChar character).length with
        inFirst | later
      · rw [List.getElem?_append_left inFirst] at isNewline
        obtain rfl :=
          eq_newline_of_mem_encode (List.mem_of_getElem? isNewline)
        obtain rfl : offset = 0 :=
          Nat.lt_one_iff.mp inFirst
        exact ⟨zero _, (zero _).cons '\n'⟩
      · rw [List.getElem?_append_right later] at isNewline
        obtain ⟨here, next⟩ := inductionHypothesis isNewline
        have moved := here.cons character
        have movedNext := next.cons character
        rw [← Nat.add_assoc] at movedNext
        rw [Nat.add_sub_cancel' later] at moved movedNext
        exact ⟨moved, movedNext⟩

end OnBoundary

namespace IsLine

/-- A line cuts no character. -/
theorem onBoundary
    {text : String}
    {line : Nat}
    {range : LineRange}
    (isLine : IsLine (bytesOf text) line range) :
    OnBoundary text range.start ∧ OnBoundary text range.stop := by
  constructor
  · rcases Nat.eq_zero_or_pos range.start with atStart | positive
    · rw [atStart]
      exact OnBoundary.zero text
    · have opens :=
        isLine.starts.opens.resolve_left (Nat.ne_of_gt positive)
      have boundary := (OnBoundary.of_newline opens).2
      rwa [Nat.sub_add_cancel positive] at boundary
  · rcases isLine.ends with isNewline | ⟨atEnd, _⟩
    · exact (OnBoundary.of_newline isNewline).1
    · rw [atEnd]
      exact OnBoundary.length text

/-- The text of a line, when a source is no longer than offsets can say. -/
theorem exists_slice
    {text : String}
    (short : text.utf8ByteSize < offsetLimit)
    {line : Nat}
    {range : LineRange}
    (isLine : IsLine (bytesOf text) line range) :
    ∃ span : Span,
      range = ⟨span.start, span.stop⟩ ∧
        ∃ covered,
          span.slice? text = some covered ∧
            bytesOf covered = range.bytesIn (bytesOf text) := by
  let span : Span :=
    ⟨range.start, range.stop, isLine.start_le_stop,
      Nat.lt_of_le_of_lt isLine.stop_le short⟩
  have hasText : (span.slice? text).isSome = true :=
    Span.isSome_slice?_iff.mpr isLine.onBoundary
  obtain ⟨covered, covers⟩ := Option.isSome_iff_exists.mp hasText
  exact ⟨span, rfl, covered, covers, Span.bytes_of_slice? covers⟩

/-- The line after a line starts right after its newline. -/
theorem next_start
    {bytes : List UInt8}
    {line : Nat}
    {range next : LineRange}
    (isLine : IsLine bytes line range)
    (isNext : IsLine bytes (line + 1) next) :
    bytes[range.stop]? = some newline ∧ next.start = range.stop + 1 := by
  have isNewline : bytes[range.stop]? = some newline := by
    apply isLine.ends.resolve_right
    rintro ⟨_, isLast⟩
    have counted := isNext.starts.count_before
    have fewer := (List.take_sublist next.start bytes).count_le newline
    omega
  refine ⟨isNewline, isNext.starts.unique ⟨?_, .inr isNewline⟩⟩
  rw [count_take_succ_of_newline isNewline,
    isLine.count_take isLine.start_le_stop (Nat.le_refl _)]

end IsLine

namespace LineIndex

/-- The bytes of a line; there are none past the last line. -/
def lineBytes
    (bytes : List UInt8)
    (line : Nat) :
    List UInt8 :=
  match (ofBytes bytes).lineRange? line with
  | some range => range.bytesIn bytes
  | none => []

/-- From any line on, the lines joined by newlines are the rest of the source. -/
theorem intercalate_lineBytes_from
    (bytes : List UInt8)
    (remaining : Nat)
    {line : Nat}
    {range : LineRange}
    (found : (ofBytes bytes).lineRange? line = some range)
    (counted : line + remaining = bytes.count newline) :
    [newline].intercalate
        ((List.range' line (remaining + 1)).map (lineBytes bytes)) =
      bytes.drop range.start := by
  have isLine := isLine_of_lineRange? found
  have first : lineBytes bytes line = range.bytesIn bytes := by
    rw [lineBytes, found]
  induction remaining generalizing line range with
  | zero =>
      have atEnd : range.stop = bytes.length := by
        apply Nat.le_antisymm isLine.stop_le
        apply isLine.le_stop_of_count (Nat.le_refl _)
        rw [List.take_length]
        exact counted.symm
      rw [List.range'_one, List.map_singleton, List.intercalate_singleton,
        first, LineRange.bytesIn, atEnd, ← List.length_drop, List.take_length]
  | succ before inductionHypothesis =>
      have isCounted : line + 1 < (ofBytes bytes).lineCount := by
        rw [lineCount_ofBytes]
        omega
      obtain ⟨next, foundNext⟩ := exists_lineRange?_of_counted isCounted
      have isNext := isLine_of_lineRange? foundNext
      obtain ⟨isNewline, nextStart⟩ := isLine.next_start isNext
      have rest :=
        inductionHypothesis foundNext (by omega) isNext
          (by rw [lineBytes, foundNext])
      rw [nextStart] at rest
      calc
        [newline].intercalate
              ((List.range' line (before + 1 + 1)).map (lineBytes bytes))
            = range.bytesIn bytes ++ newline :: bytes.drop (range.stop + 1) := by
          rw [← rest, ← first]
          simp [List.range'_succ, List.intercalate_cons_cons]
        _ = range.bytesIn bytes ++ bytes.drop range.stop := by
          obtain ⟨inside, isByte⟩ := List.getElem?_eq_some_iff.mp isNewline
          rw [List.drop_eq_getElem_cons inside, isByte]
        _ = bytes.drop range.start := by
          have split := List.take_append_drop (range.stop - range.start)
            (bytes.drop range.start)
          rw [List.drop_drop,
            Nat.add_sub_cancel' isLine.start_le_stop] at split
          exact split

/-- All lines joined by newlines are the source. -/
theorem intercalate_lineBytes
    (bytes : List UInt8) :
    [newline].intercalate
        ((List.range (ofBytes bytes).lineCount).map (lineBytes bytes)) =
      bytes := by
  have firstEntry : (ofBytes bytes).starts[0]? = some 0 :=
    rfl
  obtain ⟨stop, found⟩ := exists_lineRange?_of_start firstEntry
  have joined :=
    intercalate_lineBytes_from bytes (bytes.count newline) found
      (Nat.zero_add _)
  rw [lineCount_ofBytes, List.range_eq_range']
  exact joined

/-- Every line of a source that offsets can address has a text. -/
theorem exists_lineText
    {source : String}
    (short : source.utf8ByteSize < offsetLimit)
    {line : Nat}
    (isCounted : line < (ofSource source).lineCount) :
    ∃ text,
      bytesOf text = lineBytes (bytesOf source) line ∧
        ∃ span : Span,
          (ofSource source).lineRange? line = some ⟨span.start, span.stop⟩ ∧
            span.slice? source = some text := by
  obtain ⟨range, found⟩ := exists_lineRange?_of_counted isCounted
  change (ofBytes (bytesOf source)).lineRange? line = some range at found
  obtain ⟨span, rfl, text, covers, covered⟩ :=
    (isLine_of_lineRange? found).exists_slice short
  refine ⟨text, ?_, span, found, covers⟩
  rw [covered, lineBytes, found]

/-- The texts of the lines, joined by newlines, are the source. -/
theorem exists_lineTexts
    {source : String}
    (short : source.utf8ByteSize < offsetLimit) :
    ∃ texts : List String,
      texts.length = (ofSource source).lineCount ∧
        (∀ line text,
          texts[line]? = some text →
          ∃ span : Span,
            (ofSource source).lineRange? line =
                some ⟨span.start, span.stop⟩ ∧
              span.slice? source = some text) ∧
        "\n".intercalate texts = source := by
  choose! textOf isText using
    fun line (isCounted : line < (ofSource source).lineCount) =>
      exists_lineText short isCounted
  refine ⟨(List.range (ofSource source).lineCount).map textOf, ?_, ?_, ?_⟩
  · rw [List.length_map, List.length_range]
  · intro line text listed
    rw [List.getElem?_map, Option.map_eq_some_iff] at listed
    obtain ⟨number, isNumber, rfl⟩ := listed
    obtain ⟨isCounted, rfl⟩ := List.getElem?_eq_some_iff.mp isNumber
    rw [List.length_range] at isCounted
    rw [List.getElem_range]
    exact (isText line isCounted).2
  · apply bytesOf_injective
    rw [bytesOf_intercalate_newline, List.map_map]
    have sameBytes :
        (List.range (ofSource source).lineCount).map (bytesOf ∘ textOf) =
          (List.range (ofSource source).lineCount).map
            (lineBytes (bytesOf source)) := by
      apply List.map_congr_left
      intro line member
      exact (isText line (List.mem_range.mp member)).1
    rw [sameBytes]
    exact intercalate_lineBytes (bytesOf source)

end LineIndex

end ShaderTint
