import Mathlib.Data.List.Sort
import ShaderTint.Proofs.Highlight.FirstSeen
import ShaderTint.Proofs.Pass.Effects

namespace ShaderTint

/-!
# Views of a distinct collection

A distinct collection is told by what was added to it: it is iterated in the order of
first additions, its sorted view does not depend on the order of additions at all, and
its resolved view depends on it only where a span was added with several tags.

Main statement: `DistinctHighlights.views_of_additions`.
-/

/-- What is found among the first occurrences is what is found among all. -/
theorem find?_eraseDups
    {α : Type}
    [DecidableEq α]
    (test : α → Bool)
    (items : List α) :
    items.eraseDups.find? test = items.find? test := by
  induction items using List.reverseRecOn with
  | nil =>
      rfl
  | append_singleton items last inductionHypothesis =>
      rw [eraseDups_concat, List.find?_append]
      split
      · next repeated =>
          have earlier : last ∈ items :=
            List.mem_eraseDups.mp repeated
          rw [inductionHypothesis]
          cases found : items.find? test with
          | none =>
              have fails := List.find?_eq_none.mp found last earlier
              simp [fails]
          | some item =>
              rfl
      · rw [List.find?_append, inductionHypothesis]

namespace Highlight

/-- A highlight comes before another one by start, then by stop, then by tag. -/
theorem compare_eq_lt_iff
    {left right : Highlight} :
    left.compare right = .lt ↔
      left.span.start < right.span.start ∨
        left.span.start = right.span.start ∧
          (left.span.stop < right.span.stop ∨
            left.span.stop = right.span.stop ∧
              left.tag.rank < right.tag.rank) := by
  simp only [compare, Ordering.then_eq_lt, Nat.compare_eq_lt, Nat.compare_eq_eq]

/-- Highlights that may stand on either side of each other are equal. -/
theorem precedes_antisymm
    {left right : Highlight}
    (leftFirst : left.precedes right = true)
    (rightFirst : right.precedes left = true) :
    left = right := by
  rw [precedes_iff] at leftFirst rightFirst
  have sameSpan : left.span = right.span := by
    apply Span.ext <;> omega
  have sameTag : left.tag = right.tag := by
    apply Tag.rank_injective
    omega
  cases left
  cases right
  cases sameSpan
  cases sameTag
  rfl

/-- Of two different highlights in order, the first comes before the second. -/
theorem compare_eq_lt_of_precedes
    {left right : Highlight}
    (ordered : left.precedes right = true)
    (different : left ≠ right) :
    left.compare right = .lt := by
  rw [compare_eq_lt_iff]
  rw [precedes_iff] at ordered
  rcases ordered with starts | ⟨sameStart, stops | ⟨sameStop, ranks⟩⟩
  · exact .inl starts
  · exact .inr ⟨sameStart, .inl stops⟩
  · refine .inr ⟨sameStart, .inr ⟨sameStop, Nat.lt_of_le_of_ne ranks ?_⟩⟩
    intro sameRank
    apply different
    apply precedes_antisymm
    · exact precedes_iff.mpr (.inr ⟨sameStart, .inr ⟨sameStop, ranks⟩⟩)
    · exact precedes_iff.mpr
        (.inr ⟨sameStart.symm, .inr ⟨sameStop.symm, Nat.le_of_eq sameRank.symm⟩⟩)

/-- Sorting highlights without repetition leaves each of them before the next. -/
theorem sort_strictly_increasing
    {highlights : List Highlight}
    (distinct : highlights.Nodup) :
    (sort highlights).Pairwise fun left right =>
      left.compare right = .lt := by
  have stillDistinct : (sort highlights).Nodup :=
    (List.mergeSort_perm highlights precedes).nodup_iff.mpr distinct
  refine (sort_ordered highlights).imp₂ ?_ stillDistinct
  intro left right
  exact compare_eq_lt_of_precedes

/-- Highlights are sorted the same in whatever order they come. -/
theorem sort_eq_of_perm
    {highlights others : List Highlight}
    (perm : highlights.Perm others) :
    sort highlights = sort others := by
  refine List.Perm.eq_of_pairwise ?_ (sort_ordered highlights)
    (sort_ordered others) ?_
  · intro left right _ _
    exact precedes_antisymm
  · exact (List.mergeSort_perm highlights precedes).trans
      (perm.trans (List.mergeSort_perm others precedes).symm)

/-- Some of the highlights, sorted, are some of the sorted highlights in their order. -/
theorem sort_sublist_of_subset
    {highlights others : List Highlight}
    (distinct : highlights.Nodup)
    (subset : highlights ⊆ others) :
    (sort highlights).Sublist (sort others) := by
  have : Std.Antisymm fun left right : Highlight =>
      left.precedes right = true :=
    ⟨fun _ _ => precedes_antisymm⟩
  apply List.sublist_of_subperm_of_pairwise _ (sort_ordered highlights)
    (sort_ordered others)
  apply List.subperm_of_subset
  · exact (List.mergeSort_perm highlights precedes).nodup_iff.mpr distinct
  · intro highlight member
    exact List.mem_mergeSort.mpr (subset (List.mem_mergeSort.mp member))

end Highlight

namespace DistinctHighlights

/-- A collection holds the first occurrences of what was added. -/
theorem toList_ofList
    (added : List Highlight) :
    (ofList added).toList = added.eraseDups :=
  toList_foldl_insert empty added

/-- A collection holds what was added. -/
theorem mem_toList_ofList
    {added : List Highlight}
    {highlight : Highlight} :
    highlight ∈ (ofList added).toList ↔ highlight ∈ added := by
  rw [toList_ofList, List.mem_eraseDups]

/-- A collection holds nothing twice. -/
theorem nodup_toList
    (collection : DistinctHighlights) :
    collection.toList.Nodup :=
  collection.nodup

/-- The same additions in another order are sorted the same. -/
theorem sorted_eq_of_perm
    {added reordered : List Highlight}
    (perm : reordered.Perm added) :
    (ofList reordered).sorted = (ofList added).sorted := by
  apply Highlight.sort_eq_of_perm
  rw [List.perm_ext_iff_of_nodup (nodup_toList _) (nodup_toList _)]
  intro highlight
  rw [mem_toList_ofList, mem_toList_ofList, perm.mem_iff]

/-- The first highlight that was added for a span is all that is shown for it. -/
theorem filter_span_resolved
    (added : List Highlight)
    (span : Span) :
    (ofList added).resolved.filter (·.span = span) =
      (added.find? (·.span = span)).toList := by
  have holds := toList_ofList added
  cases found : added.find? (·.span = span) with
  | none =>
      rw [Option.toList_none, List.filter_eq_nil_iff]
      intro highlight shown
      have first := (mem_resolved_iff holds).mp shown
      exact List.find?_eq_none.mp found highlight
        (List.mem_of_find?_eq_some first)
  | some first =>
      have itsSpan : first.span = span := by
        simpa using List.find?_some found
      have sameTest :
          (fun highlight : Highlight => decide (highlight.span = span)) =
            first.sameSpan := by
        funext highlight
        rw [← itsSpan, Highlight.sameSpan, Bool.eq_iff_iff, decide_eq_true_iff,
          beq_iff_eq, eq_comm]
      rw [sameTest] at found ⊢
      exact filter_sameSpan_resolved ((mem_resolved_iff holds).mpr found)

/-- The first tag of a span is that of the first highlight added for it. -/
theorem head?_tagsAt
    (added : List Highlight)
    (span : Span) :
    ((ofList added).tagsAt span).head? =
      (added.find? (·.span = span)).map (·.tag) := by
  rw [tagsAt, List.head?_map, List.head?_filter, toList_ofList,
    find?_eraseDups]

/-- The resolved view is part of the sorted one. -/
theorem resolved_sublist_sorted
    (collection : DistinctHighlights) :
    collection.resolved.Sublist collection.sorted := by
  have firsts :
      (firstPerSpan collection.toList).Sublist collection.toList := by
    rw [firstPerSpan_eq]
    exact eraseDupsBy_sublist collection.toList
  exact Highlight.sort_sublist_of_subset
    (collection.nodup_toList.sublist firsts) firsts.subset

/--
What the views of a collection show of the highlights that were added to it, one at a
time or all at once.
-/
theorem views_of_additions
    (added : List Highlight) :
    let collection := ofList added
    (∀ flags, Sink.addAll added empty flags = (collection, flags)) ∧
      collection.toList = added.eraseDups ∧
      (∀ highlight,
        collection.contains highlight = true ↔ highlight ∈ added) ∧
      (collection.resolved.Pairwise fun left right =>
        left.span.Before right.span) ∧
      (∀ span,
        collection.resolved.filter (·.span = span) =
            (added.find? (·.span = span)).toList ∧
          (collection.tagsAt span).head? =
            (added.find? (·.span = span)).map (·.tag)) ∧
      (collection.sorted.Pairwise fun left right =>
        left.compare right = .lt) ∧
      (∀ highlight, highlight ∈ collection.sorted ↔ highlight ∈ added) ∧
      (∀ reordered,
        reordered.Perm added →
        (ofList reordered).sorted = collection.sorted) ∧
      collection.resolved.Sublist collection.sorted := by
  intro collection
  refine ⟨fun flags => Sink.addAll_distinct added empty flags,
    toList_ofList added, ?_, collection.resolved_increasing, ?_,
    Highlight.sort_strictly_increasing collection.nodup_toList, ?_,
    fun reordered => sorted_eq_of_perm, collection.resolved_sublist_sorted⟩
  · intro highlight
    rw [contains_iff, mem_toList_ofList]
  · intro span
    exact ⟨filter_span_resolved added span, head?_tagsAt added span⟩
  · intro highlight
    exact List.mem_mergeSort.trans mem_toList_ofList

end DistinctHighlights

end ShaderTint
