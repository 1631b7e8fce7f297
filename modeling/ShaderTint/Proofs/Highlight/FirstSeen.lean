import Mathlib.Data.List.Induction
import Mathlib.Data.List.Nodup
import ShaderTint.Highlight.Distinct

namespace ShaderTint

/-!
# What is seen first

A distinct collection keeps the first of several equal highlights, and its
resolved view the first of several highlights of one span. Both are instances of
one operation on lists, which keeps what is like nothing kept before it.

Main statements: `DistinctHighlights.toList_foldl_insert` says what a collection
holds after any sequence of insertions; `DistinctHighlights.resolved_perm` and
`DistinctHighlights.resolved_increasing` say what the resolved view holds and in
which order.
-/

/-! ## Keeping what is like nothing before it -/

section

variable {α : Type} {alike : α → α → Bool}

/-- One more element is kept just when it is like nothing that was kept. -/
theorem eraseDupsBy_concat
    (items : List α)
    (last : α) :
    (items ++ [last]).eraseDupsBy alike =
      if (items.eraseDupsBy alike).any (alike last) then
        items.eraseDupsBy alike
      else
        items.eraseDupsBy alike ++ [last] := by
  have fromKept :
      ∀ kept : List α,
        List.eraseDupsBy.loop alike (items ++ [last]) kept =
          if (List.eraseDupsBy.loop alike items kept).any (alike last) then
            List.eraseDupsBy.loop alike items kept
          else
            List.eraseDupsBy.loop alike items kept ++ [last] := by
    induction items with
    | nil =>
        intro kept
        cases seen : kept.any (alike last) <;>
          simp [List.eraseDupsBy.loop, seen]
    | cons item rest inductionHypothesis =>
        intro kept
        cases seen : kept.any (alike item) <;>
          simp only [List.cons_append, List.eraseDupsBy.loop, seen,
            inductionHypothesis]
  exact fromKept []

/-- Only members of a list are kept, and in their order. -/
theorem eraseDupsBy_sublist
    (items : List α) :
    (items.eraseDupsBy alike).Sublist items := by
  induction items using List.reverseRecOn with
  | nil =>
      exact List.Sublist.slnil
  | append_singleton items last inductionHypothesis =>
      rw [eraseDupsBy_concat]
      split
      · exact inductionHypothesis.trans (List.sublist_append_left _ _)
      · exact inductionHypothesis.append (List.Sublist.refl _)

/-- Nothing is kept that is like something kept before it. -/
theorem eraseDupsBy_unlike
    (items : List α) :
    (items.eraseDupsBy alike).Pairwise fun earlier later =>
      alike later earlier = false := by
  induction items using List.reverseRecOn with
  | nil =>
      exact List.Pairwise.nil
  | append_singleton items last inductionHypothesis =>
      rw [eraseDupsBy_concat]
      split
      · exact inductionHypothesis
      · next unseen =>
          rw [List.pairwise_append]
          refine ⟨inductionHypothesis, List.pairwise_singleton _ _, ?_⟩
          intro earlier member later isLast
          rw [List.mem_singleton] at isLast
          subst later
          simp only [List.any_eq_true, not_exists, not_and] at unseen
          simpa using unseen earlier member

/-- Every member of a list is like something that is kept. -/
theorem exists_alike_mem_eraseDupsBy
    (reflexive : ∀ item, alike item item = true)
    {items : List α}
    {item : α}
    (member : item ∈ items) :
    ∃ kept ∈ items.eraseDupsBy alike, alike item kept = true := by
  induction items using List.reverseRecOn with
  | nil =>
      simp at member
  | append_singleton items last inductionHypothesis =>
      rw [eraseDupsBy_concat]
      rcases List.mem_append.mp member with earlier | isLast
      · obtain ⟨kept, isKept, like⟩ := inductionHypothesis earlier
        split
        · exact ⟨kept, isKept, like⟩
        · exact ⟨kept, List.mem_append_left _ isKept, like⟩
      · rw [List.mem_singleton] at isLast
        subst item
        split
        · next seen => exact List.any_eq_true.mp seen
        · exact ⟨last, by simp, reflexive last⟩

/-- What is kept is the first of those that are like it. -/
theorem mem_eraseDupsBy_iff
    (reflexive : ∀ item, alike item item = true)
    (transitive :
      ∀ {first second third},
        alike first second = true →
        alike second third = true →
        alike first third = true)
    {items : List α}
    {item : α} :
    item ∈ items.eraseDupsBy alike ↔
      items.find? (alike item) = some item := by
  induction items using List.reverseRecOn with
  | nil =>
      simp
  | append_singleton items last inductionHypothesis =>
      rw [eraseDupsBy_concat, List.find?_append]
      have lastFound :
          [last].find? (alike item) = some item ↔ item = last := by
        constructor
        · intro found
          exact List.mem_singleton.mp (List.mem_of_find?_eq_some found)
        · rintro rfl
          exact List.find?_cons_of_pos (reflexive item)
      split
      · next seen =>
          obtain ⟨kept, isKept, like⟩ := List.any_eq_true.mp seen
          have earlier := (eraseDupsBy_sublist items).mem isKept
          rw [inductionHypothesis, Option.or_eq_some_iff, lastFound]
          constructor
          · exact .inl
          · rintro (found | ⟨nothing, rfl⟩)
            · exact found
            · exact absurd like (List.find?_eq_none.mp nothing kept earlier)
      · next unseen =>
          rw [List.mem_append, List.mem_singleton, inductionHypothesis,
            Option.or_eq_some_iff, lastFound]
          apply or_congr_right
          constructor
          · rintro rfl
            refine ⟨List.find?_eq_none.mpr ?_, rfl⟩
            intro other member like
            obtain ⟨kept, isKept, keptLike⟩ :=
              exists_alike_mem_eraseDupsBy reflexive member
            exact unseen (List.any_eq_true.mpr
              ⟨kept, isKept, transitive like keptLike⟩)
          · exact And.right

/-- A list of unlike elements is kept as it is. -/
theorem eraseDupsBy_of_unlike
    {items : List α}
    (unlike :
      items.Pairwise fun earlier later => alike later earlier = false) :
    items.eraseDupsBy alike = items := by
  induction items using List.reverseRecOn with
  | nil =>
      rfl
  | append_singleton items last inductionHypothesis =>
      rw [List.pairwise_append] at unlike
      obtain ⟨before, _, across⟩ := unlike
      have unseen : ¬ items.any (alike last) = true := by
        intro seen
        obtain ⟨earlier, member, like⟩ := List.any_eq_true.mp seen
        rw [across earlier member last (List.mem_singleton_self _)] at like
        contradiction
      rw [eraseDupsBy_concat, inductionHypothesis before, if_neg unseen]

/-- One more element is no repetition just when it was not kept before. -/
theorem eraseDups_concat
    [DecidableEq α]
    (items : List α)
    (last : α) :
    (items ++ [last]).eraseDups =
      if last ∈ items.eraseDups then
        items.eraseDups
      else
        items.eraseDups ++ [last] := by
  have concat :
      (items ++ [last]).eraseDups =
        if items.eraseDups.any (last == ·) then
          items.eraseDups
        else
          items.eraseDups ++ [last] :=
    eraseDupsBy_concat items last
  simpa using concat

/-- Repetitions make no difference to what is kept. -/
theorem eraseDupsBy_eraseDups
    [DecidableEq α]
    (reflexive : ∀ item, alike item item = true)
    (items : List α) :
    items.eraseDups.eraseDupsBy alike = items.eraseDupsBy alike := by
  induction items using List.reverseRecOn with
  | nil =>
      rfl
  | append_singleton items last inductionHypothesis =>
      rw [eraseDups_concat]
      split
      · next repeated =>
          have earlier : last ∈ items :=
            List.mem_eraseDups.mp repeated
          have seen :
              (items.eraseDupsBy alike).any (alike last) = true :=
            List.any_eq_true.mpr
              (exists_alike_mem_eraseDupsBy reflexive earlier)
          rw [inductionHypothesis, eraseDupsBy_concat, if_pos seen]
      · rw [eraseDupsBy_concat, eraseDupsBy_concat, inductionHypothesis]

end

/-! ## The order of highlights -/

/-- The span starts before another one, or with it and stops before it. -/
def Span.Before
    (left right : Span) :
    Prop :=
  left.start < right.start ∨
    left.start = right.start ∧ left.stop < right.stop

instance (left right : Span) : Decidable (left.Before right) :=
  inferInstanceAs (Decidable (_ ∨ _))

namespace Highlight

/-- Do two highlights cover the same span? -/
def sameSpan
    (left right : Highlight) :
    Bool :=
  left.span == right.span

theorem sameSpan_self
    (highlight : Highlight) :
    highlight.sameSpan highlight = true :=
  beq_self_eq_true _

theorem sameSpan_iff
    {left right : Highlight} :
    left.sameSpan right = true ↔ left.span = right.span :=
  beq_iff_eq

/-- Highlights are compared by start, then by stop, then by the rank of their tags. -/
theorem precedes_iff
    {left right : Highlight} :
    left.precedes right = true ↔
      left.span.start < right.span.start ∨
        left.span.start = right.span.start ∧
          (left.span.stop < right.span.stop ∨
            left.span.stop = right.span.stop ∧
              left.tag.rank ≤ right.tag.rank) := by
  simp only [precedes, compare, Ordering.isLE_then_iff_or,
    Nat.compare_eq_lt, Nat.compare_eq_eq, Nat.isLE_compare]

/-- Sorting puts highlights in order. -/
theorem sort_ordered
    (highlights : List Highlight) :
    (sort highlights).Pairwise fun left right =>
      left.precedes right = true := by
  refine List.pairwise_mergeSort ?_ ?_ highlights
  · intro first second third
    simp only [precedes_iff]
    omega
  · intro left right
    simp only [Bool.or_eq_true, precedes_iff]
    omega

/-- Where no span occurs twice, sorting puts the spans in order. -/
theorem sort_increasing
    {highlights : List Highlight}
    (distinct :
      highlights.Pairwise fun earlier later => later.sameSpan earlier = false) :
    (sort highlights).Pairwise fun left right =>
      left.span.Before right.span := by
  have stillDistinct :
      (sort highlights).Pairwise fun left right => left.span ≠ right.span := by
    refine ((List.mergeSort_perm highlights precedes).pairwise_iff ?_).mpr
      (distinct.imp ?_)
    · intro left right different
      exact different.symm
    · intro earlier later unlike same
      simp [sameSpan, same] at unlike
  refine (sort_ordered highlights).imp₂ ?_ stillDistinct
  intro left right ordered different
  rw [precedes_iff] at ordered
  rcases ordered with starts | ⟨sameStart, stops | ⟨sameStop, _⟩⟩
  · exact .inl starts
  · exact .inr ⟨sameStart, stops⟩
  · exact absurd (Span.ext sameStart sameStop) different

end Highlight

/-! ## Distinct collections -/

namespace DistinctHighlights

/-- After any insertions a collection holds what was seen first, in that order. -/
theorem toList_foldl_insert
    (collection : DistinctHighlights)
    (highlights : List Highlight) :
    (highlights.foldl insert collection).toList =
      (collection.toList ++ highlights).eraseDups := by
  induction highlights using List.reverseRecOn with
  | nil =>
      rw [List.append_nil]
      refine (eraseDupsBy_of_unlike (collection.nodup.imp ?_)).symm
      intro earlier later different
      exact beq_eq_false_iff_ne.mpr different.symm
  | append_singleton highlights last inductionHypothesis =>
      rw [List.foldl_append, List.foldl_cons, List.foldl_nil,
        toList_insert, inductionHypothesis, ← List.append_assoc,
        eraseDups_concat]

/-- What is kept is the first of each span, and its spans are those that are taken. -/
theorem foldl_keepFirst
    (highlights : List Highlight) :
    let kept := highlights.foldl keepFirst (#[], ∅)
    kept.1.toList = highlights.eraseDupsBy Highlight.sameSpan ∧
      ∀ highlight : Highlight,
        kept.2.contains highlight.span =
          kept.1.toList.any highlight.sameSpan := by
  induction highlights using List.reverseRecOn with
  | nil =>
      simp
  | append_singleton highlights last inductionHypothesis =>
      obtain ⟨keeps, taken⟩ := inductionHypothesis
      rw [List.foldl_append, List.foldl_cons, List.foldl_nil,
        eraseDupsBy_concat, ← keeps]
      dsimp only [keepFirst]
      rw [taken last]
      split
      · exact ⟨rfl, taken⟩
      · refine ⟨Array.toList_push, ?_⟩
        intro highlight
        rw [Std.HashSet.contains_insert, taken highlight, Array.toList_push,
          List.any_append, Bool.or_comm, List.any_cons, List.any_nil,
          Bool.or_false, Highlight.sameSpan, BEq.comm]

/-- One highlight is kept for each span, the first one. -/
theorem firstPerSpan_eq
    (highlights : List Highlight) :
    firstPerSpan highlights = highlights.eraseDupsBy Highlight.sameSpan :=
  (foldl_keepFirst highlights).1

/-- The resolved view holds the first highlight of each span. -/
theorem resolved_perm
    (collection : DistinctHighlights) :
    collection.resolved.Perm
      (collection.toList.eraseDupsBy Highlight.sameSpan) := by
  rw [← firstPerSpan_eq]
  exact List.mergeSort_perm _ _

/-- The resolved view is in the order of its spans, and none occurs twice. -/
theorem resolved_increasing
    (collection : DistinctHighlights) :
    collection.resolved.Pairwise fun left right =>
      left.span.Before right.span := by
  rw [resolved, firstPerSpan_eq]
  exact Highlight.sort_increasing (eraseDupsBy_unlike _)

/-- A collection's resolved view holds what was the first of its span to be seen. -/
theorem mem_resolved_iff
    {collection : DistinctHighlights}
    {seen : List Highlight}
    (holds : collection.toList = seen.eraseDups)
    {highlight : Highlight} :
    highlight ∈ collection.resolved ↔
      seen.find? highlight.sameSpan = some highlight := by
  rw [collection.resolved_perm.mem_iff, holds,
    eraseDupsBy_eraseDups Highlight.sameSpan_self,
    mem_eraseDupsBy_iff Highlight.sameSpan_self]
  intro first second third firstSecond secondThird
  rw [Highlight.sameSpan_iff] at firstSecond secondThird ⊢
  exact firstSecond.trans secondThird

/-- No highlight is in the resolved view twice. -/
theorem nodup_resolved
    (collection : DistinctHighlights) :
    collection.resolved.Nodup := by
  refine collection.resolved_increasing.imp ?_
  rintro left right before rfl
  rcases before with starts | ⟨_, stops⟩
  · exact Nat.lt_irrefl _ starts
  · exact Nat.lt_irrefl _ stops

/-- What the resolved view holds is all that it holds for that span. -/
theorem filter_sameSpan_resolved
    {collection : DistinctHighlights}
    {highlight : Highlight}
    (member : highlight ∈ collection.resolved) :
    collection.resolved.filter highlight.sameSpan = [highlight] := by
  have holds : collection.toList = collection.toList.eraseDups := by
    have seen := toList_foldl_insert collection []
    rwa [List.append_nil] at seen
  rw [← List.perm_singleton, List.perm_ext_iff_of_nodup
    (collection.nodup_resolved.filter _) (List.nodup_singleton _)]
  intro other
  rw [List.mem_filter, List.mem_singleton]
  constructor
  · rintro ⟨otherMember, same⟩
    have sameTest : other.sameSpan = highlight.sameSpan := by
      funext third
      rw [Highlight.sameSpan, Highlight.sameSpan,
        Highlight.sameSpan_iff.mp same]
    have first := (mem_resolved_iff holds).mp member
    have otherFirst := (mem_resolved_iff holds).mp otherMember
    rw [sameTest, first] at otherFirst
    exact (Option.some.inj otherFirst).symm
  · rintro rfl
    exact ⟨member, Highlight.sameSpan_self _⟩

end DistinctHighlights

end ShaderTint
