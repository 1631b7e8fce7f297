import Std.Data.HashSet.Lemmas
import ShaderTint.Highlight.Basic

namespace ShaderTint

/-!
# Distinct highlights

`DistinctHighlights` keeps each highlight once, in the order in which
highlights were first seen. A hash index answers membership; the invariant ties
it to the list of entries, so that every statement can be made about `toList`.

Main statements: `toList_insert` says what one insertion does to the entries,
and `contains_iff` that membership is membership in the entries.
-/

/-- Highlights without repetition, in first-seen order. -/
structure DistinctHighlights where
  entries : Array Highlight
  index : Std.HashSet Highlight
  mem_index : ∀ highlight, highlight ∈ index ↔ highlight ∈ entries
  nodup : entries.toList.Nodup

namespace DistinctHighlights

/-- No highlights. -/
def empty : DistinctHighlights where
  entries := #[]
  index := ∅
  mem_index := by simp
  nodup := by simp

/-- The highlights in first-seen order. -/
def toList
    (highlights : DistinctHighlights) :
    List Highlight :=
  highlights.entries.toList

/-- Number of highlights. -/
def size
    (highlights : DistinctHighlights) :
    Nat :=
  highlights.entries.size

/-- Was this exact highlight seen? -/
def contains
    (highlights : DistinctHighlights)
    (highlight : Highlight) :
    Bool :=
  highlights.index.contains highlight

/-- Membership is membership in the entries. -/
theorem contains_iff
    (highlights : DistinctHighlights)
    (highlight : Highlight) :
    highlights.contains highlight = true ↔
      highlight ∈ highlights.toList := by
  simp [contains, toList, ← highlights.mem_index]

/-- See one more highlight. -/
def insert
    (highlights : DistinctHighlights)
    (highlight : Highlight) :
    DistinctHighlights :=
  if seen : highlights.contains highlight = true then
    highlights
  else
    {
      entries := highlights.entries.push highlight
      index := highlights.index.insert highlight
      mem_index := by
        intro other
        simp only [Std.HashSet.mem_insert, beq_iff_eq, Array.mem_push,
          highlights.mem_index]
        constructor
        · rintro (same | member)
          · exact Or.inr same.symm
          · exact Or.inl member
        · rintro (member | same)
          · exact Or.inr member
          · exact Or.inl same.symm
      nodup := by
        rw [contains_iff] at seen
        simp only [Array.toList_push, List.nodup_append,
          List.nodup_cons, List.not_mem_nil, not_false_eq_true,
          List.nodup_nil, and_self, List.mem_singleton, true_and]
        refine ⟨highlights.nodup, ?_⟩
        intro earlier member later same
        subst same
        intro equal
        subst equal
        exact seen member
    }

/-- An insertion appends what was not seen before. -/
theorem toList_insert
    (highlights : DistinctHighlights)
    (highlight : Highlight) :
    (highlights.insert highlight).toList =
      if highlight ∈ highlights.toList then
        highlights.toList
      else
        highlights.toList ++ [highlight] := by
  unfold insert
  by_cases seen : highlights.contains highlight = true
  · rw [dif_pos seen, if_pos ((highlights.contains_iff highlight).mp seen)]
  · rw [dif_neg seen,
      if_neg (fun member => seen ((highlights.contains_iff highlight).mpr member))]
    simp [toList]

/-- See the highlights of a list in order. -/
def ofList
    (seen : List Highlight) :
    DistinctHighlights :=
  seen.foldl insert empty

/-- Tags seen for exactly this span, in first-seen order. -/
def tagsAt
    (highlights : DistinctHighlights)
    (span : Span) :
    List Tag :=
  (highlights.toList.filter (·.span = span)).map (·.tag)

/-- Keep one more highlight unless its span is taken. -/
def keepFirst
    (kept : Array Highlight × Std.HashSet Span)
    (highlight : Highlight) :
    Array Highlight × Std.HashSet Span :=
  if kept.2.contains highlight.span then
    kept
  else
    (kept.1.push highlight, kept.2.insert highlight.span)

/-- Keep the first highlight of each span. -/
def firstPerSpan
    (highlights : List Highlight) :
    List Highlight :=
  (highlights.foldl keepFirst (#[], ∅)).1.toList

/--
One tag per span, in order.

Where several tags were seen for the same span the first one wins, so that a
declaration's own view of its parts beats the general rule for a part.
-/
def resolved
    (highlights : DistinctHighlights) :
    List Highlight :=
  Highlight.sort (firstPerSpan highlights.toList)

/-- All highlights in order. -/
def sorted
    (highlights : DistinctHighlights) :
    List Highlight :=
  Highlight.sort highlights.toList

end DistinctHighlights

end ShaderTint
