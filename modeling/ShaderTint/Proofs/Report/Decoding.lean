import ShaderTint.Proofs.Report.Rows
import ShaderTint.Proofs.Source.Clipping

namespace ShaderTint

/-!
# Reports tell what they show

A report that goes line by line can be read back. A newline ends a row, a blank stands
before each stretch of a row, and within a stretch no number or name holds the mark
that ends it. So what a row shows is told by its text, however long the rows are and
however many there are. Counting from one in words loses nothing either: where a
highlight falls, lines and columns are themselves words, however long the source is.

Main statements: `Report.lineRow_injective` for the rows of stretches, and
`Report.row_injective` for the rows of highlights without a source.
`Report.rows_uniquely_decodable` says what they come to for whole reports.
-/

namespace Tag

/-- Different tags have different capture names. -/
theorem capture_injective
    {left right : Tag}
    (same : left.capture = right.capture) :
    left = right := by
  cases left <;> cases right <;> simp_all [capture]

/-- Different tags have different attribute ids. -/
theorem attributeId_injective
    {left right : Tag}
    (same : left.attributeId = right.attributeId) :
    left = right := by
  have found := ofAttributeId_attributeId left
  rw [same, ofAttributeId_attributeId right] at found
  exact (Except.ok.inj found).symm

end Tag

/-! ## Lines and columns where a highlight falls -/

/-- The columns of a stretch are kept in words. -/
def LineSpan.InWords
    (span : LineSpan) :
    Prop :=
  span.startColumn < offsetLimit ∧ span.stopColumn < offsetLimit

/-- A line and its stretches are kept in words. -/
def LineSpans.InWords
    (entry : LineSpans) :
    Prop :=
  entry.line < offsetLimit ∧ ∀ span ∈ entry.spans, span.InWords

/-- A highlight is clipped before its end, and a line starts after the lines before it. -/
theorem IsLine.inWords_of_clip?
    {bytes : List UInt8}
    {line : Nat}
    {range : LineRange}
    (isLine : IsLine bytes line range)
    {highlight : Highlight}
    {span : LineSpan}
    (clipped : range.clip? highlight = some span) :
    line < offsetLimit ∧ span.InWords := by
  obtain ⟨common, _, stops, _⟩ := LineRange.clip?_eq_some_iff.mp clipped
  have nonempty := (LineRange.columns_of_clip? clipped).1
  have newlinesBefore : line ≤ range.start := by
    rw [← isLine.starts.count_before]
    exact Nat.le_trans List.count_le_length (List.length_take_le _ _)
  have isOffset := highlight.span.stop_lt
  rw [LineSpan.InWords]
  omega

/-- Where highlights fall, lines and columns are words. -/
theorem LineIndex.inWords_of_mem_perLine
    {bytes : List UInt8}
    {highlights : List Highlight}
    {entry : LineSpans}
    (listed : entry ∈ (ofBytes bytes).perLine highlights) :
    entry.InWords := by
  obtain ⟨range, found, some, spans⟩ := mem_perLine_iff_clip?.mp listed
  have isLine := isLine_of_lineRange? found
  obtain ⟨_, member⟩ := List.exists_mem_of_ne_nil _ some
  obtain ⟨_, _, clipped⟩ := List.mem_filterMap.mp member
  refine ⟨(isLine.inWords_of_clip? clipped).1, ?_⟩
  intro span member
  rw [spans, List.mem_mergeSort, List.mem_filterMap] at member
  obtain ⟨_, _, clipped⟩ := member
  exact (isLine.inWords_of_clip? clipped).2

namespace Report

/-! ## Words and marks -/

/-- A word is told by what it is counted as. -/
theorem ordinal_injective
    {left right : Nat}
    (leftWord : left < offsetLimit)
    (rightWord : right < offsetLimit)
    (same : ordinal left = ordinal right) :
    left = right := by
  have sameWord := (UInt32.add_left_inj 1).mp (UInt32.toNat_inj.mp same)
  have sameNumber := congrArg UInt32.toNat sameWord
  rwa [UInt32.toNat_ofNat_of_lt' leftWord,
    UInt32.toNat_ofNat_of_lt' rightWord] at sameNumber

/-- A number is told by its digits. -/
theorem toDigits_injective
    {left right : Nat}
    (same : Nat.toDigits 10 left = Nat.toDigits 10 right) :
    left = right := by
  have values := congrArg (Nat.ofDigitChars 10 · 0) same
  simpa only [Nat.ofDigitChars_ten_toDigits] using values

/-- A word without a mark in it ends at the first mark. -/
theorem eq_of_append_mark
    {mark : Char}
    {left right leftRest rightRest : List Char}
    (leftPlain : mark ∉ left)
    (rightPlain : mark ∉ right)
    (same : left ++ mark :: leftRest = right ++ mark :: rightRest) :
    left = right ∧ leftRest = rightRest := by
  have pieces := congrArg (List.splitOn mark) same
  rw [List.splitOn_append_cons_self_of_not_mem leftPlain,
    List.splitOn_append_cons_self_of_not_mem rightPlain] at pieces
  obtain rfl := (List.cons.inj pieces).1
  exact ⟨rfl, (List.cons.inj (List.append_cancel_left same)).2⟩

/-- A number in front of a mark is told by the text. -/
theorem eq_of_toDigits_append_mark
    {mark : Char}
    (notDigit : Json.isDigit mark = false)
    {left right : Nat}
    {leftRest rightRest : List Char}
    (same :
      Nat.toDigits 10 left ++ mark :: leftRest =
        Nat.toDigits 10 right ++ mark :: rightRest) :
    left = right ∧ leftRest = rightRest := by
  obtain ⟨sameDigits, sameRest⟩ :=
    eq_of_append_mark (notMem_toDigits notDigit left)
      (notMem_toDigits notDigit right) same
  exact ⟨toDigits_injective sameDigits, sameRest⟩

/-- Lists are told by their images under a function that is injective on their members. -/
theorem eq_of_map_eq_of_forall_mem
    {image : α → β}
    {good : α → Prop}
    {left right : List α}
    (leftGood : ∀ entry ∈ left, good entry)
    (rightGood : ∀ entry ∈ right, good entry)
    (injective :
      ∀ first second,
        good first → good second → image first = image second →
          first = second)
    (same : left.map image = right.map image) :
    left = right := by
  induction left generalizing right with
  | nil =>
      exact (List.map_eq_nil_iff.mp same.symm).symm
  | cons first rest inductionHypothesis =>
      obtain ⟨second, others, rfl, sameHead, sameTail⟩ :=
        List.map_eq_cons_iff.mp same.symm
      rw [List.forall_mem_cons] at leftGood rightGood
      rw [injective first second leftGood.1 rightGood.1 sameHead.symm,
        inductionHypothesis leftGood.2 rightGood.2 sameTail.symm]

/-! ## Rows of stretches -/

/-- The columns and the name of a stretch, without the blank in front. -/
def stretchChars
    (span : LineSpan) :
    List Char :=
  Nat.toDigits 10 (ordinal span.startColumn) ++
    '-' :: (Nat.toDigits 10 (ordinal span.stopColumn) ++
      ':' :: span.tag.capture.toList)

theorem toList_stretchText
    (span : LineSpan) :
    (stretchText span).toList = ' ' :: stretchChars span := by
  simp [stretchText, stretchChars]

/-- A stretch whose columns are words is told by its text. -/
theorem stretchChars_injective
    {left right : LineSpan}
    (leftWords : left.InWords)
    (rightWords : right.InWords)
    (same : stretchChars left = stretchChars right) :
    left = right := by
  obtain ⟨sameStarts, rest⟩ := eq_of_toDigits_append_mark rfl same
  obtain ⟨sameStops, names⟩ := eq_of_toDigits_append_mark rfl rest
  have starts := ordinal_injective leftWords.1 rightWords.1 sameStarts
  have stops := ordinal_injective leftWords.2 rightWords.2 sameStops
  have tags := Tag.capture_injective (String.toList_inj.mp names)
  cases left
  cases right
  simp_all

/-- A stretch has neither a blank nor a newline in it. -/
theorem notMem_stretchChars
    {character : Char}
    (blank : character = ' ' ∨ character = '\n')
    (span : LineSpan) :
    character ∉ stretchChars span := by
  have notDigit : Json.isDigit character = false := by
    rcases blank with rfl | rfl <;> rfl
  have notInName : character ∉ span.tag.capture.toList := by
    rcases blank with rfl | rfl <;> cases span.tag <;> decide
  have noMark : character ≠ '-' ∧ character ≠ ':' := by
    rcases blank with rfl | rfl <;> decide
  simp [stretchChars, notMem_toDigits notDigit, notInName, noMark]

/-- A row falls apart at its blanks into its head and its stretches. -/
theorem splitOn_stretches
    {head : List Char}
    (plain : ' ' ∉ head)
    (spans : List LineSpan) :
    (head ++ (String.join (spans.map stretchText)).toList).splitOn ' ' =
      head :: spans.map stretchChars := by
  induction spans generalizing head with
  | nil =>
      simpa using List.splitOn_eq_singleton plain
  | cons span rest inductionHypothesis =>
      have ofRest := inductionHypothesis (notMem_stretchChars (.inl rfl) span)
      rw [List.map_cons, String.join_cons, String.toList_append,
        toList_stretchText, List.cons_append,
        List.splitOn_append_cons_self_of_not_mem plain, ofRest]
      rfl

theorem toList_lineRow
    (line : LineSpans) :
    (lineRow line).toList =
      Nat.toDigits 10 (ordinal line.line) ++
        ':' :: (String.join (line.spans.map stretchText)).toList := by
  simp [lineRow]

/-- A line and its stretches are told by their row, if they are kept in words. -/
theorem lineRow_injective
    {left right : LineSpans}
    (leftWords : left.InWords)
    (rightWords : right.InWords)
    (same : lineRow left = lineRow right) :
    left = right := by
  have sameChars := congrArg String.toList same
  rw [toList_lineRow, toList_lineRow] at sameChars
  obtain ⟨sameLines, joined⟩ := eq_of_toDigits_append_mark rfl sameChars
  have lines := ordinal_injective leftWords.1 rightWords.1 sameLines
  have pieces :=
    (splitOn_stretches List.not_mem_nil left.spans).symm.trans
      ((congrArg (List.splitOn ' ') joined).trans
        (splitOn_stretches List.not_mem_nil right.spans))
  have spans :=
    eq_of_map_eq_of_forall_mem leftWords.2 rightWords.2
      (fun _ _ => stretchChars_injective) (List.cons.inj pieces).2
  cases left
  cases right
  simp_all

theorem newline_notMem_lineRow
    (line : LineSpans) :
    '\n' ∉ (lineRow line).toList := by
  simp [toList_lineRow, toList_stretchText,
    notMem_toDigits (show Json.isDigit '\n' = false from rfl),
    notMem_stretchChars (.inr rfl)]

/-! ## Rows of highlights -/

theorem toList_row
    (highlight : Highlight) :
    (Record.of none highlight).row.toList =
      Nat.toDigits 10 highlight.span.start ++
        '.' :: '.' :: (Nat.toDigits 10 highlight.span.stop ++
          ' ' :: highlight.tag.attributeId.toList) := by
  simp [Record.row, Record.of, Span.text, rangeText]

/-- A highlight is told by its row. -/
theorem row_injective
    {left right : Highlight}
    (same : (Record.of none left).row = (Record.of none right).row) :
    left = right := by
  have sameChars := congrArg String.toList same
  rw [toList_row, toList_row] at sameChars
  obtain ⟨starts, rest⟩ := eq_of_toDigits_append_mark rfl sameChars
  obtain ⟨stops, names⟩ :=
    eq_of_toDigits_append_mark rfl (List.cons.inj rest).2
  have tags := Tag.attributeId_injective (String.toList_inj.mp names)
  have spans := Span.ext starts stops
  cases left
  cases right
  simp_all

/-! ## Whole reports -/

/-- Lines with their stretches are told by their rows. -/
theorem perLine_eq_of_lines_eq
    {left right : List Highlight}
    {leftSource rightSource : String}
    (same :
      lines left (.ofText leftSource) = lines right (.ofText rightSource)) :
    (LineIndex.ofSource leftSource).perLine left =
      (LineIndex.ofSource rightSource).perLine right := by
  have unbroken (entries : List LineSpans) :
      ∀ row ∈ entries.map lineRow, '\n' ∉ row.toList :=
    List.forall_mem_map.mpr fun entry _ => newline_notMem_lineRow entry
  have rows := unlines_injective (unbroken _) (unbroken _) same
  exact eq_of_map_eq_of_forall_mem
    (fun _ => LineIndex.inWords_of_mem_perLine)
    (fun _ => LineIndex.inWords_of_mem_perLine)
    (fun _ _ => lineRow_injective) rows

/-- Without a source, highlights are told by their rows. -/
theorem eq_of_text_eq
    {left right : List Highlight}
    (same : text (records left none) = text (records right none)) :
    left = right := by
  have unbroken (highlights : List Highlight) :
      ∀ row ∈ highlights.map (Record.row ∘ Record.of none), '\n' ∉ row.toList :=
    List.forall_mem_map.mpr fun highlight _ => newline_notMem_row highlight
  simp only [text, records, List.map_map] at same
  have rows := unlines_injective (unbroken _) (unbroken _) same
  exact (List.map_inj_right fun _ _ => row_injective).mp rows

/-- A line is listed with its stretches only. -/
theorem spans_ne_nil_of_mem_perLine
    {index : LineIndex}
    {highlights : List Highlight}
    {entry : LineSpans}
    (listed : entry ∈ index.perLine highlights) :
    entry.spans ≠ [] := by
  obtain ⟨some, sorted⟩ := LineIndex.mem_perLine_iff.mp listed
  rw [sorted, ← List.length_pos_iff, List.length_mergeSort]
  exact List.length_pos_iff.mpr some

/--
Reports that go line by line can be read back.

Two reports by line with the same text show the same lines with the same stretches. The
rows of such a report are those of the lines that have a stretch, in order. And two
reports of highlights without a source that have the same text show the same highlights.
-/
theorem rows_uniquely_decodable
    (left right : List Highlight)
    (leftSource rightSource : String) :
    let shown := (LineIndex.ofSource leftSource).perLine left
    let output := lines left (.ofText leftSource)
    (output = lines right (.ofText rightSource) →
        shown = (LineIndex.ofSource rightSource).perLine right) ∧
      output.toList.splitOn '\n' =
        shown.map (fun entry => (lineRow entry).toList) ++ [[]] ∧
      shown.Pairwise (fun earlier later => earlier.line < later.line) ∧
      (∀ entry ∈ shown, entry.spans ≠ []) ∧
      (text (records left none) = text (records right none) →
        left = right) := by
  intro shown output
  have rows :
      output.toList.splitOn '\n' =
        (shown.map lineRow).map String.toList ++ [[]] :=
    splitOn_unlines
      (List.forall_mem_map.mpr fun entry _ => newline_notMem_lineRow entry)
  rw [List.map_map] at rows
  exact ⟨perLine_eq_of_lines_eq, rows, LineIndex.perLine_increasing _ left,
    fun _ => spans_ne_nil_of_mem_perLine, eq_of_text_eq⟩

end Report

end ShaderTint
