import ShaderTint.Proofs.Json.Lexeme
import ShaderTint.Report.Record
import Mathlib.Algebra.GroupWithZero.Nat

namespace ShaderTint.Report

/-!
# The rows of a report

Rows are ended by newlines, so a report falls apart into its rows again just when no
row has a newline in it. Numbers, separators and tags have none. The one part of a
row that may have some is the text of its highlight, which is shown as it stands in
the source.

Main statements: `splitOn_unlines` gives rows without newlines back, and
`text_falls_into_rows_iff` says for which highlights a report has one line for each.
-/

/-! ## Rows in general -/

/-- The number of pieces is one more than the number of separators. -/
theorem length_splitOn
    (separator : Char)
    (text : List Char) :
    (text.splitOn separator).length = text.count separator + 1 := by
  induction text with
  | nil =>
      rfl
  | cons character rest inductionHypothesis =>
      rw [List.splitOn_cons_eq_if_modifyHead, List.count_cons]
      split <;> simp [inductionHypothesis]

theorem toList_unlines_cons
    (row : String)
    (rest : List String) :
    (unlines (row :: rest)).toList =
      row.toList ++ '\n' :: (unlines rest).toList := by
  simp [unlines]

/-- A text of rows without newlines falls apart into its rows and a last empty piece. -/
theorem splitOn_unlines
    {rows : List String}
    (unbroken : ∀ row ∈ rows, '\n' ∉ row.toList) :
    (unlines rows).toList.splitOn '\n' = rows.map String.toList ++ [[]] := by
  induction rows with
  | nil =>
      rfl
  | cons row rest inductionHypothesis =>
      rw [List.forall_mem_cons] at unbroken
      rw [toList_unlines_cons,
        List.splitOn_append_cons_self_of_not_mem unbroken.1,
        inductionHypothesis unbroken.2]
      rfl

/-- Rows without newlines are told by their text. -/
theorem unlines_injective
    {left right : List String}
    (leftUnbroken : ∀ row ∈ left, '\n' ∉ row.toList)
    (rightUnbroken : ∀ row ∈ right, '\n' ∉ row.toList)
    (same : unlines left = unlines right) :
    left = right := by
  have pieces :
      left.map String.toList ++ [[]] = right.map String.toList ++ [[]] := by
    rw [← splitOn_unlines leftUnbroken, same, splitOn_unlines rightUnbroken]
  exact (List.map_inj_right fun _ _ => String.toList_inj.mp).mp
    (List.append_cancel_right pieces)

/-- A text of rows has a newline for each row, and those in the rows. -/
theorem count_newline_unlines
    (rows : List String) :
    (unlines rows).toList.count '\n' =
      rows.length + (rows.map (·.toList.count '\n')).sum := by
  induction rows with
  | nil =>
      rfl
  | cons row rest inductionHypothesis =>
      rw [toList_unlines_cons, List.count_append, List.count_cons_self,
        inductionHypothesis, List.length_cons, List.map_cons, List.sum_cons]
      omega

/-- A text falls apart into its rows just when it has one newline for each. -/
theorem splitOn_unlines_iff
    (rows : List String) :
    (unlines rows).toList.splitOn '\n' = rows.map String.toList ++ [[]] ↔
      (unlines rows).toList.count '\n' = rows.length := by
  constructor
  · intro apart
    have pieces := congrArg List.length apart
    rw [length_splitOn] at pieces
    simpa using pieces
  · intro oneEach
    apply splitOn_unlines
    intro row member
    have noneLeft : (rows.map (·.toList.count '\n')).sum = 0 := by
      have counted := count_newline_unlines rows
      omega
    rw [List.sum_eq_zero_iff_forall_eq_nat] at noneLeft
    exact List.count_eq_zero.mp (noneLeft _ (List.mem_map_of_mem member))

/-! ## Newlines in a row -/

/-- A number is written with digits only. -/
theorem notMem_toDigits
    {character : Char}
    (notDigit : Json.isDigit character = false)
    (number : Nat) :
    character ∉ Nat.toDigits 10 number := by
  intro member
  rw [Json.isDigit_of_mem_toDigits member] at notDigit
  contradiction

theorem newline_notMem_positionText
    (position : Position) :
    '\n' ∉ (positionText position).toList := by
  simp [positionText, notMem_toDigits (show Json.isDigit '\n' = false from rfl)]

theorem newline_notMem_attributeId
    (tag : Tag) :
    '\n' ∉ tag.attributeId.toList := by
  cases tag <;> decide

/-- Without a source, a row has no newline in it. -/
theorem newline_notMem_row
    (highlight : Highlight) :
    '\n' ∉ (Record.of none highlight).row.toList := by
  simp [Record.row, Record.of, Span.text, rangeText, newline_notMem_attributeId,
    notMem_toDigits (show Json.isDigit '\n' = false from rfl)]

/-- The newlines in the text of a highlight, when the source is known and has it. -/
def newlinesWithin
    (source : Option String)
    (highlight : Highlight) :
    Nat :=
  ((source.bind highlight.span.slice?).getD "").toList.count '\n'

/-- The newlines of a row are those in the text of its highlight. -/
theorem count_newline_row
    (source : Option String)
    (highlight : Highlight) :
    (Record.of (source.map Source.ofText) highlight).row.toList.count '\n' =
      newlinesWithin source highlight := by
  cases source with
  | none =>
      exact List.count_eq_zero.mpr (newline_notMem_row highlight)
  | some source =>
      have ofPosition (position : Position) :
          (positionText position).toList.count '\n' = 0 :=
        List.count_eq_zero.mpr (newline_notMem_positionText position)
      have ofTag : highlight.tag.attributeId.toList.count '\n' = 0 :=
        List.count_eq_zero.mpr (newline_notMem_attributeId highlight.tag)
      simp [Record.row, Record.of, Source.ofText, newlinesWithin, ofPosition, ofTag]

/--
A report has one line for each highlight just when no text has a newline in it.

It has a newline for each highlight and one for each newline in their texts. So it
falls apart into its rows, in order, just when every highlight whose text is shown
stays on one line of the source.
-/
theorem text_falls_into_rows_iff
    (highlights : List Highlight)
    (source : Option String) :
    let shown := records highlights (source.map Source.ofText)
    let output := (text shown).toList
    let unbroken :=
      ∀ highlight ∈ highlights,
        ∀ covered,
          source.bind highlight.span.slice? = some covered →
          '\n' ∉ covered.toList
    output.count '\n' =
        shown.length + (highlights.map (newlinesWithin source)).sum ∧
      (output.count '\n' = shown.length ↔ unbroken) ∧
      (output.splitOn '\n' = shown.map (·.row.toList) ++ [[]] ↔ unbroken) := by
  intro shown output unbroken
  have counted :
      output.count '\n' =
        shown.length + (highlights.map (newlinesWithin source)).sum := by
    simp [output, text, count_newline_unlines, shown, records,
      Function.comp_def, count_newline_row]
  have noneWithin_iff :
      (highlights.map (newlinesWithin source)).sum = 0 ↔ unbroken := by
    rw [List.sum_eq_zero_iff_forall_eq_nat, List.forall_mem_map]
    apply forall₂_congr
    intro highlight _
    rw [newlinesWithin, List.count_eq_zero]
    cases source.bind highlight.span.slice? <;>
      simp
  have oneEach_iff : output.count '\n' = shown.length ↔ unbroken := by
    rw [counted, ← noneWithin_iff]
    omega
  refine ⟨counted, oneEach_iff, ?_⟩
  rw [← oneEach_iff]
  have apart_iff := splitOn_unlines_iff (shown.map Record.row)
  rw [List.map_map, List.length_map] at apart_iff
  exact apart_iff

/-- One highlight over the end of a line is shown on two lines. -/
theorem text_breaks_row :
    let highlight : Highlight := ⟨.ofTested 0 3 (.refl true), .keyword⟩
    let shown := records [highlight] (some (Source.ofText "a\nb"))
    let output := (text shown).toList
    text shown = "1:1-2:2 CG_KEYWORD 'a\nb'\n" ∧
      shown.length = 1 ∧
      output.count '\n' = 2 ∧
      output.splitOn '\n' ≠ shown.map (·.row.toList) ++ [[]] := by
  decide +kernel

end ShaderTint.Report
