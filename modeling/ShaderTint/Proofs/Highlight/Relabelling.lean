import ShaderTint.Proofs.Highlight.FirstSeen
import ShaderTint.Proofs.Tree.Relabelling

namespace ShaderTint

/-!
# Highlights with other spans

The views of a distinct collection compare highlights: whether two are equal, have
one span, or come one before the other. A map that keeps the order of the spans
keeps all three, so it makes no difference whether it is applied before a view is
taken or after.

Main statement: `DistinctHighlights.views_mapSpan`.
-/

/-- Keeping what is unlike commutes with a map that keeps what is alike. -/
theorem eraseDupsBy_map
    {α β : Type}
    {alike : α → α → Bool}
    {alikeAfter : β → β → Bool}
    {change : α → β}
    {items : List α}
    (same :
      ∀ left ∈ items,
        ∀ right ∈ items,
          alikeAfter (change left) (change right) = alike left right) :
    (items.map change).eraseDupsBy alikeAfter =
      (items.eraseDupsBy alike).map change := by
  induction items using List.reverseRecOn with
  | nil =>
      rfl
  | append_singleton items last inductionHypothesis =>
      have sameBefore :=
        inductionHypothesis fun left isLeft right isRight =>
          same left (List.mem_append_left _ isLeft)
            right (List.mem_append_left _ isRight)
      have sameSeen :
          ((items.eraseDupsBy alike).map change).any
              (alikeAfter (change last)) =
            (items.eraseDupsBy alike).any (alike last) := by
        rw [List.any_map, Bool.eq_iff_iff, List.any_eq_true,
          List.any_eq_true]
        apply exists_congr
        intro kept
        apply and_congr_right
        intro isKept
        have earlier := (eraseDupsBy_sublist items).mem isKept
        rw [Function.comp_apply,
          same last (by simp) kept (List.mem_append_left _ earlier)]
      rw [List.map_append, List.map_singleton, eraseDupsBy_concat,
        eraseDupsBy_concat, sameBefore, sameSeen]
      split
      · rfl
      · simp

namespace Highlight

/-- The highlight with a map applied to its span. -/
def mapSpan
    (f : Span → Span)
    (highlight : Highlight) :
    Highlight :=
  { highlight with span := f highlight.span }

section

variable {f : Span → Span} {highlights : List Highlight}

/-- A map that keeps spans apart keeps highlights apart. -/
theorem beq_mapSpan
    (keeps : Span.KeepsOrder f (highlights.map (·.span)))
    {left right : Highlight}
    (isLeft : left ∈ highlights)
    (isRight : right ∈ highlights) :
    (left.mapSpan f == right.mapSpan f) = (left == right) := by
  have sameSpan :=
    keeps.eq_iff (List.mem_map_of_mem isLeft) (List.mem_map_of_mem isRight)
  rw [Bool.eq_iff_iff, beq_iff_eq, beq_iff_eq]
  simp only [mapSpan, Highlight.mk.injEq, sameSpan]
  cases left
  cases right
  simp

theorem sameSpan_mapSpan
    (keeps : Span.KeepsOrder f (highlights.map (·.span)))
    {left right : Highlight}
    (isLeft : left ∈ highlights)
    (isRight : right ∈ highlights) :
    (left.mapSpan f).sameSpan (right.mapSpan f) = left.sameSpan right := by
  rw [Bool.eq_iff_iff, sameSpan_iff, sameSpan_iff]
  exact keeps.eq_iff (List.mem_map_of_mem isLeft)
    (List.mem_map_of_mem isRight)

/-- A map that keeps the order of spans keeps the order of highlights. -/
theorem precedes_mapSpan
    (keeps : Span.KeepsOrder f (highlights.map (·.span)))
    {left right : Highlight}
    (isLeft : left ∈ highlights)
    (isRight : right ∈ highlights) :
    (left.mapSpan f).precedes (right.mapSpan f) = left.precedes right := by
  have leftSpan := List.mem_map_of_mem (f := (·.span)) isLeft
  have rightSpan := List.mem_map_of_mem (f := (·.span)) isRight
  have starts := keeps.start_lt_iff _ leftSpan _ rightSpan
  have startsBack := keeps.start_lt_iff _ rightSpan _ leftSpan
  have stops := keeps.stop_lt_iff _ leftSpan _ rightSpan
  have stopsBack := keeps.stop_lt_iff _ rightSpan _ leftSpan
  rw [Bool.eq_iff_iff, precedes_iff, precedes_iff]
  simp only [mapSpan]
  omega

/-- Sorting commutes with a map that keeps the order of spans. -/
theorem sort_mapSpan
    (keeps : Span.KeepsOrder f (highlights.map (·.span))) :
    sort (highlights.map (mapSpan f)) =
      (sort highlights).map (mapSpan f) := by
  refine (List.map_mergeSort ?_).symm
  intro left isLeft right isRight
  exact (precedes_mapSpan keeps isLeft isRight).symm

end

end Highlight

namespace DistinctHighlights

/--
The views of a collection commute with a map that keeps the order of its spans.

The second collection has seen what the first one has, with the map applied.
-/
theorem views_mapSpan
    {f : Span → Span}
    {seen : List Highlight}
    (keeps : Span.KeepsOrder f (seen.map (·.span)))
    {collection changed : DistinctHighlights}
    (holds : collection.toList = seen.eraseDups)
    (changedHolds :
      changed.toList = (seen.map (Highlight.mapSpan f)).eraseDups) :
    changed.toList = collection.toList.map (Highlight.mapSpan f) ∧
      changed.resolved = collection.resolved.map (Highlight.mapSpan f) ∧
      changed.sorted = collection.sorted.map (Highlight.mapSpan f) := by
  have listed :
      changed.toList = collection.toList.map (Highlight.mapSpan f) := by
    rw [changedHolds, holds]
    apply eraseDupsBy_map
    intro left isLeft right isRight
    exact Highlight.beq_mapSpan keeps isLeft isRight
  -- What a view holds has been seen, so its spans are kept in order too.
  have keepsList :
      Span.KeepsOrder f (collection.toList.map (·.span)) := by
    apply keeps.mono
    rw [holds]
    exact ((eraseDupsBy_sublist seen).map _).subset
  have keepsFirst :
      Span.KeepsOrder f
        ((collection.toList.eraseDupsBy Highlight.sameSpan).map
          (·.span)) := by
    apply keepsList.mono
    exact ((eraseDupsBy_sublist _).map _).subset
  refine ⟨listed, ?_, ?_⟩
  · rw [resolved, resolved, firstPerSpan_eq, firstPerSpan_eq, listed,
      ← Highlight.sort_mapSpan keepsFirst]
    congr 1
    apply eraseDupsBy_map
    intro left isLeft right isRight
    exact Highlight.sameSpan_mapSpan keepsList isLeft isRight
  · rw [sorted, sorted, listed, Highlight.sort_mapSpan keepsList]

end DistinctHighlights

end ShaderTint
