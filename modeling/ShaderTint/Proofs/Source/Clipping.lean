import Mathlib.Data.List.Induction
import ShaderTint.Proofs.Source.Stretches

namespace ShaderTint

/-!
# Highlights clipped to lines

The stretches of all highlights are collected under their lines and sorted there. So a
line is listed just when a highlight has a byte in common with it, with all that the
highlights have in common with it, in the order of the columns.

Main statement: `LineIndex.perLine_clips`.
-/

/-! ## Stretches in order -/

namespace LineSpan

/-- The stretch has these columns. -/
def hasColumns
    (startColumn stopColumn : Nat)
    (span : LineSpan) :
    Bool :=
  span.startColumn == startColumn && span.stopColumn == stopColumn

/--
Stretches are those of a given list, in the order of their columns; stretches with
the same columns are in the order of the given list.
-/
structure Sorts
    (given sorted : List LineSpan) :
    Prop where
  perm : sorted.Perm given
  ordered :
    sorted.Pairwise fun left right =>
      left.startColumn < right.startColumn ∨
        left.startColumn = right.startColumn ∧
          left.stopColumn ≤ right.stopColumn
  stable :
    ∀ startColumn stopColumn,
      sorted.filter (hasColumns startColumn stopColumn) =
        given.filter (hasColumns startColumn stopColumn)

end LineSpan

namespace LineIndex

open LineSpan

/-- Stretches are compared by their columns. -/
theorem precedes_iff
    {left right : LineSpan} :
    precedes left right = true ↔
      left.startColumn < right.startColumn ∨
        left.startColumn = right.startColumn ∧
          left.stopColumn ≤ right.stopColumn := by
  simp [precedes]

theorem precedes_trans
    (first second third : LineSpan)
    (firstSecond : precedes first second = true)
    (secondThird : precedes second third = true) :
    precedes first third = true := by
  rw [precedes_iff] at firstSecond secondThird ⊢
  omega

theorem precedes_total
    (left right : LineSpan) :
    (precedes left right || precedes right left) = true := by
  rw [Bool.or_eq_true, precedes_iff, precedes_iff]
  omega

/-- Sorting keeps stretches with the same columns in their order. -/
theorem sorts_mergeSort
    (spans : List LineSpan) :
    Sorts spans (spans.mergeSort precedes) where
  perm := List.mergeSort_perm spans precedes
  ordered :=
    (List.pairwise_mergeSort precedes_trans precedes_total spans).imp
      precedes_iff.mp
  stable := by
    intro startColumn stopColumn
    -- Stretches with the same columns are in order as given, and sorting keeps what is.
    let test := hasColumns startColumn stopColumn
    have alike :
        (spans.filter test).Pairwise fun left right =>
          precedes left right = true := by
      apply List.pairwise_of_forall_mem_list
      intro left leftMember right rightMember
      have leftColumns := (List.mem_filter.mp leftMember).2
      have rightColumns := (List.mem_filter.mp rightMember).2
      simp only [test, hasColumns, Bool.and_eq_true, beq_iff_eq] at leftColumns rightColumns
      rw [precedes_iff]
      omega
    have kept :
        (spans.filter test).Sublist (spans.mergeSort precedes) :=
      List.sublist_mergeSort precedes_trans precedes_total alike
        List.filter_sublist
    have keptAgain := kept.filter test
    simp only [List.filter_filter, Bool.and_self] at keptAgain
    exact (keptAgain.eq_of_length
      ((List.mergeSort_perm spans precedes).filter test).length_eq.symm).symm

/-! ## Stretches under their lines -/

/-- The stretches of one line among those of all lines. -/
def spansAt
    (line : Nat)
    (pieces : List (Nat × LineSpan)) :
    List LineSpan :=
  (pieces.filter (·.1 = line)).map Prod.snd

@[simp]
theorem spansAt_append
    (line : Nat)
    (first second : List (Nat × LineSpan)) :
    spansAt line (first ++ second) =
      spansAt line first ++ spansAt line second := by
  simp [spansAt]

/-- Stretches are collected under their lines, in order. -/
theorem getElem?_gather
    (pieces : List (Nat × LineSpan))
    (line : Nat) :
    (gather pieces)[line]? =
      if spansAt line pieces = [] then
        none
      else
        some (spansAt line pieces).toArray := by
  induction pieces using List.reverseRecOn with
  | nil =>
      simp [gather, spansAt]
  | append_singleton pieces last inductionHypothesis =>
      obtain ⟨lastLine, span⟩ := last
      have gathered :
          gather (pieces ++ [(lastLine, span)]) =
            (gather pieces).insert lastLine
              (((gather pieces).getD lastLine #[]).push span) := by
        simp [gather]
      rw [gathered, Std.TreeMap.getElem?_insert]
      by_cases sameLine : lastLine = line
      · subst sameLine
        have ownSpan : spansAt lastLine [(lastLine, span)] = [span] := by
          simp [spansAt]
        rw [if_pos (compare_eq_iff_eq.mpr rfl),
          Std.TreeMap.getD_eq_getD_getElem?, inductionHypothesis,
          spansAt_append, ownSpan]
        by_cases nothing : spansAt lastLine pieces = []
        · simp [nothing]
        · simp [nothing]
      · have elsewhere : spansAt line [(lastLine, span)] = [] := by
          simp [spansAt, sameLine]
        rw [if_neg (fun same => sameLine (compare_eq_iff_eq.mp same)),
          inductionHypothesis, spansAt_append, elsewhere, List.append_nil]

/-- A line is listed with its stretches in order, if it has any. -/
theorem mem_perLine_iff
    {index : LineIndex}
    {highlights : List Highlight}
    {entry : LineSpans} :
    entry ∈ index.perLine highlights ↔
      let spans := spansAt entry.line (highlights.flatMap index.stretches)
      spans ≠ [] ∧ entry.spans = spans.mergeSort precedes := by
  obtain ⟨line, sorted⟩ := entry
  simp only [perLine, List.mem_map, Prod.exists,
    Std.TreeMap.mem_toList_iff_getElem?_eq_some, getElem?_gather,
    Option.ite_none_left_eq_some, Option.some.injEq, LineSpans.mk.injEq]
  constructor
  · rintro ⟨_, _, ⟨some, rfl⟩, rfl, rfl⟩
    exact ⟨some, rfl⟩
  · rintro ⟨some, rfl⟩
    exact ⟨_, _, ⟨some, rfl⟩, rfl, rfl⟩

/-- Lines are listed in order, each once. -/
theorem perLine_increasing
    (index : LineIndex)
    (highlights : List Highlight) :
    (index.perLine highlights).Pairwise fun earlier later =>
      earlier.line < later.line := by
  rw [perLine, List.pairwise_map]
  apply Std.TreeMap.ordered_keys_toList.imp
  intro earlier later ordered
  exact Nat.compare_eq_lt.mp ordered

@[simp]
theorem spansAt_cons
    (line first : Nat)
    (span : LineSpan)
    (pieces : List (Nat × LineSpan)) :
    spansAt line ((first, span) :: pieces) =
      if first = line then
        span :: spansAt line pieces
      else
        spansAt line pieces := by
  by_cases sameLine : first = line <;> simp [spansAt, sameLine]

/-- Of stretches that come with their lines, each line has its own one. -/
theorem spansAt_filterMap
    (stretchOf : Nat → Option LineSpan)
    (line : Nat)
    {lines : List Nat}
    (distinct : lines.Nodup) :
    spansAt line (lines.filterMap fun line => (stretchOf line).map (line, ·)) =
      if line ∈ lines then (stretchOf line).toList else [] := by
  induction lines with
  | nil =>
      rfl
  | cons first rest inductionHypothesis =>
      obtain ⟨notAgain, restDistinct⟩ := List.nodup_cons.mp distinct
      have ofRest := inductionHypothesis restDistinct
      by_cases sameLine : first = line
      · subst sameLine
        cases own : stretchOf first <;>
          simp [own, ofRest, notAgain]
      · have otherLine : ¬ line = first :=
          fun same => sameLine same.symm
        cases own : stretchOf first <;>
          simp [own, ofRest, sameLine, otherLine]

/-- The stretches of a line are what the highlights have in common with it, in their order. -/
theorem spansAt_stretches
    (bytes : List UInt8)
    (highlights : List Highlight)
    (line : Nat) :
    spansAt line (highlights.flatMap (ofBytes bytes).stretches) =
      highlights.filterMap ((ofBytes bytes).clip? · line) := by
  induction highlights with
  | nil =>
      rfl
  | cons highlight rest inductionHypothesis =>
      have ofOne :
          spansAt line ((ofBytes bytes).stretches highlight) =
            ((ofBytes bytes).clip? highlight line).toList := by
        rw [stretches_eq, spansAt_filterMap _ _ List.nodup_range]
        split
        · rfl
        · next notCounted =>
            rw [List.mem_range] at notCounted
            rw [clip?_eq_none_of_not_counted notCounted]
            rfl
      rw [List.flatMap_cons, spansAt_append, ofOne, inductionHypothesis]
      cases own : (ofBytes bytes).clip? highlight line <;>
        simp [own]

/-! ## Lines and their stretches -/

/-- The lines that highlights fall on, with what they have in common. -/
structure Clips
    (index : LineIndex)
    (source : String)
    (highlights : List Highlight)
    (lines : List LineSpans) :
    Prop where
  /-- Lines are listed in order, each once. -/
  increasing :
    lines.Pairwise fun earlier later => earlier.line < later.line
  /-- A line is listed just when a highlight has a byte in common with it. -/
  listed_iff :
    ∀ line,
      (∃ entry ∈ lines, entry.line = line) ↔
        ∃ range,
          index.lineRange? line = some range ∧
            ∃ highlight ∈ highlights,
              (Set.Ico range.start range.stop ∩
                Set.Ico highlight.span.start highlight.span.stop).Nonempty
  /-- Its stretches are what the highlights have in common with it, sorted by column. -/
  sorted :
    ∀ entry ∈ lines,
      ∃ range,
        index.lineRange? entry.line = some range ∧
          LineSpan.Sorts (highlights.filterMap range.clip?) entry.spans
  /-- A stretch is not empty, ends with its line or before and has no newline in it. -/
  inside :
    ∀ entry ∈ lines,
      ∀ span ∈ entry.spans,
        entry.line < offsetLimit ∧
          span.stopColumn < offsetLimit ∧
          ∃ range,
            index.lineRange? entry.line = some range ∧
              span.startColumn < span.stopColumn ∧
              range.start + span.stopColumn ≤ range.stop ∧
              ∀ offset ∈ range.offsets span,
                ∃ byte,
                  (bytesOf source)[offset]? = some byte ∧ byte ≠ newline
  /-- What a highlight adds to the lines is one stretch for each line it is clipped to. -/
  added :
    ∀ highlight ∈ highlights,
      (index.stretches highlight).Pairwise
          (fun earlier later => earlier.1 < later.1) ∧
        ∀ line span,
          (line, span) ∈ index.stretches highlight →
          (∃ range,
            index.lineRange? line = some range ∧
              range.clip? highlight = some span) ∧
          ∃ entry ∈ lines, entry.line = line ∧ span ∈ entry.spans
  /-- All its stretches together cover its bytes in the source that are not newlines. -/
  covered :
    ∀ highlight ∈ highlights,
      { offset |
          ∃ line span range,
            (line, span) ∈ index.stretches highlight ∧
              index.lineRange? line = some range ∧
              offset ∈ range.offsets span } =
        { offset |
          offset ∈ Set.Ico highlight.span.start highlight.span.stop ∧
            ∃ byte,
              (bytesOf source)[offset]? = some byte ∧ byte ≠ newline }

section

variable {bytes : List UInt8} {highlights : List Highlight}

/-- A line is listed when a highlight has something in common with it, and then with all of that. -/
theorem mem_perLine_iff_clip?
    {entry : LineSpans} :
    entry ∈ (ofBytes bytes).perLine highlights ↔
      ∃ range,
        (ofBytes bytes).lineRange? entry.line = some range ∧
          highlights.filterMap range.clip? ≠ [] ∧
          entry.spans =
            (highlights.filterMap range.clip?).mergeSort precedes := by
  rw [mem_perLine_iff, spansAt_stretches]
  cases found : (ofBytes bytes).lineRange? entry.line with
  | none =>
      simp [clip?, found]
  | some range =>
      simp [clip?_of_found found]

/-- A line is listed just when a highlight has a byte in common with it. -/
theorem exists_mem_perLine_iff
    {line : Nat} :
    (∃ entry ∈ (ofBytes bytes).perLine highlights, entry.line = line) ↔
      ∃ range,
        (ofBytes bytes).lineRange? line = some range ∧
          ∃ highlight ∈ highlights,
            (Set.Ico range.start range.stop ∩
              Set.Ico highlight.span.start highlight.span.stop).Nonempty := by
  have some_iff :
      ∀ range : LineRange,
        highlights.filterMap range.clip? ≠ [] ↔
          ∃ highlight ∈ highlights,
            (Set.Ico range.start range.stop ∩
              Set.Ico highlight.span.start highlight.span.stop).Nonempty := by
    intro range
    simp only [← LineRange.isSome_clip?_iff, Option.isSome_iff_ne_none, ne_eq,
      List.filterMap_eq_nil_iff, not_forall, exists_prop]
  constructor
  · rintro ⟨entry, listed, rfl⟩
    obtain ⟨range, found, some, _⟩ := mem_perLine_iff_clip?.mp listed
    exact ⟨range, found, (some_iff range).mp some⟩
  · rintro ⟨range, found, common⟩
    exact ⟨⟨line, _⟩,
      mem_perLine_iff_clip?.mpr
        ⟨range, found, (some_iff range).mpr common, rfl⟩,
      rfl⟩

/-- What a highlight has in common with a line is listed there. -/
theorem exists_mem_spans_of_clip?
    {highlight : Highlight}
    (member : highlight ∈ highlights)
    {line : Nat}
    {range : LineRange}
    (found : (ofBytes bytes).lineRange? line = some range)
    {span : LineSpan}
    (clipped : range.clip? highlight = some span) :
    ∃ entry ∈ (ofBytes bytes).perLine highlights,
      entry.line = line ∧ span ∈ entry.spans := by
  have among : span ∈ highlights.filterMap range.clip? :=
    List.mem_filterMap.mpr ⟨highlight, member, clipped⟩
  refine ⟨⟨line, _⟩, mem_perLine_iff_clip?.mpr
    ⟨range, found, List.ne_nil_of_mem among, rfl⟩, rfl, ?_⟩
  exact List.mem_mergeSort.mpr among

end

/--
Splitting highlights by the positions of their ends is clipping them to lines.
-/
theorem perLine_clips
    (source : String)
    (short : source.utf8ByteSize < offsetLimit)
    (highlights : List Highlight) :
    (ofSource source).Clips source highlights
      ((ofSource source).perLine highlights) := by
  let bytes := bytesOf source
  change (ofBytes bytes).Clips source highlights
    ((ofBytes bytes).perLine highlights)
  refine {
    increasing := perLine_increasing _ highlights
    listed_iff := fun line => exists_mem_perLine_iff
    sorted := ?_
    inside := ?_
    added := ?_
    covered := fun highlight _ =>
      Set.ext fun offset => exists_stretch_covering_iff
  }
  · intro entry listed
    obtain ⟨range, found, _, spans⟩ := mem_perLine_iff_clip?.mp listed
    exact ⟨range, found, spans ▸ sorts_mergeSort _⟩
  · intro entry listed span member
    obtain ⟨range, found, _, spans⟩ := mem_perLine_iff_clip?.mp listed
    rw [spans, List.mem_mergeSort, List.mem_filterMap] at member
    obtain ⟨highlight, _, clipped⟩ := member
    have isLine := isLine_of_lineRange? found
    obtain ⟨nonempty, toStop⟩ := LineRange.columns_of_clip? clipped
    have columnInside : span.stopColumn ≤ source.utf8ByteSize :=
      Nat.le_trans (Nat.le_add_left _ range.start)
        (Nat.le_trans toStop isLine.stop_le)
    refine ⟨Nat.lt_of_le_of_lt isLine.line_le short,
      Nat.lt_of_le_of_lt columnInside short, range, found, nonempty, toStop, ?_⟩
    intro offset covers
    rw [LineRange.offsets_of_clip? clipped] at covers
    exact isLine.exists_byte covers.1.1 covers.1.2
  · intro highlight member
    refine ⟨stretches_increasing bytes highlight, ?_⟩
    intro line span added
    obtain ⟨range, found, clipped⟩ := mem_stretches_iff.mp added
    exact ⟨⟨range, found, clipped⟩,
      exists_mem_spans_of_clip? member found clipped⟩

/--
Highlights of six bytes on three lines: one over all lines, one that starts before
it, one that runs past the end, one with the columns of another, and an empty one.
-/
def crossingHighlights : List Highlight :=
  [
    ⟨.ofTested 1 5 (.refl true), .keyword⟩,
    ⟨.ofTested 0 1 (.refl true), .typeIdentifier⟩,
    ⟨.ofTested 4 40 (.refl true), .fieldIdentifier⟩,
    ⟨.ofTested 4 5 (.refl true), .variableIdentifier⟩,
    ⟨.ofTested 3 3 (.refl true), .functionIdentifier⟩
  ]

/--
The line without bytes is not listed. On the last line the two stretches with the
same columns are in the order of their highlights.
-/
theorem perLine_clips_crossingHighlights :
    let source := "ab\n\ncd"
    source.utf8ByteSize < offsetLimit ∧
      (ofSource source).Clips source crossingHighlights
        [
          ⟨0, [⟨0, 1, .typeIdentifier⟩, ⟨1, 2, .keyword⟩]⟩,
          ⟨2, [⟨0, 1, .keyword⟩, ⟨0, 1, .variableIdentifier⟩,
            ⟨0, 2, .fieldIdentifier⟩]⟩
        ] := by
  intro source
  have short : source.utf8ByteSize < offsetLimit := by
    decide +kernel
  have gathered :
      (gather (crossingHighlights.flatMap (ofSource source).stretches)).toList =
        [
          (0, #[⟨1, 2, .keyword⟩, ⟨0, 1, .typeIdentifier⟩]),
          (2, #[⟨0, 1, .keyword⟩, ⟨0, 2, .fieldIdentifier⟩,
            ⟨0, 1, .variableIdentifier⟩])
        ] := by
    decide +kernel
  have split :
      (ofSource source).perLine crossingHighlights =
        [
          ⟨0, [⟨0, 1, .typeIdentifier⟩, ⟨1, 2, .keyword⟩]⟩,
          ⟨2, [⟨0, 1, .keyword⟩, ⟨0, 1, .variableIdentifier⟩,
            ⟨0, 2, .fieldIdentifier⟩]⟩
        ] := by
    rw [perLine, gathered]
    simp [List.mergeSort, List.MergeSort.Internal.splitInTwo, precedes]
  exact ⟨short, split ▸ perLine_clips source short crossingHighlights⟩

end LineIndex

end ShaderTint
