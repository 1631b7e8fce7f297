import ShaderTint.Proofs.Pass.Lineage
import ShaderTint.Proofs.Tree.Bracketing

namespace ShaderTint

/-!
# Highlights that cross

Accepted trees keep children within their parents, and say nothing of how children
of one node lie to one another. So two highlights may share bytes without either
containing the other; this takes two siblings that share bytes themselves.

Main statements: `Occurrence.crossing_highlights` shows an accepted tree with
highlights that cross, and `Occurrence.crossing_needs_meeting_siblings` says that
the highlights of an accepted tree cross nowhere else than below siblings that
meet.
-/

namespace Span

/-- The byte at an offset is inside the span. -/
def Covers
    (span : Span)
    (offset : Nat) :
    Prop :=
  span.start ≤ offset ∧ offset < span.stop

/-- Some byte is inside both spans. -/
def Meets
    (left right : Span) :
    Prop :=
  ∃ offset, left.Covers offset ∧ right.Covers offset

/-- One span contains the other, or they share no byte. -/
def NestedOrApart
    (left right : Span) :
    Prop :=
  left.Contains right ∨ right.Contains left ∨ ¬left.Meets right

/-- A span covers every byte of the spans that it contains. -/
theorem Contains.covers
    {outer inner : Span}
    {offset : Nat}
    (contains : outer.Contains inner)
    (covered : inner.Covers offset) :
    outer.Covers offset :=
  ⟨Nat.le_trans contains.1 covered.1,
    Nat.lt_of_lt_of_le covered.2 contains.2⟩

/-- Spans around spans that meet meet as well. -/
theorem Meets.widen
    {left right outerLeft outerRight : Span}
    (meets : left.Meets right)
    (aroundLeft : outerLeft.Contains left)
    (aroundRight : outerRight.Contains right) :
    outerLeft.Meets outerRight := by
  obtain ⟨offset, inLeft, inRight⟩ := meets
  exact ⟨offset, aroundLeft.covers inLeft, aroundRight.covers inRight⟩

end Span

namespace Occurrence

/-- Two places at or below two children of one node that share a byte. -/
def ForkMeets
    (left right : Occurrence) :
    Prop :=
  ∃ first second : Occurrence,
    Siblings first second ∧
      first.AtOrAbove left ∧
      second.AtOrAbove right ∧
      first.node.span.Meets second.node.span

/-- No two children of one node in a tree share a byte. -/
def SiblingsApart
    (root : Node) :
    Prop :=
  ∀ first second,
    Within root first →
    Within root second →
    Siblings first second →
    ¬first.node.span.Meets second.node.span

section

variable {root : Node} {left right : Occurrence}

/-- Where siblings share no byte, no fork meets. -/
theorem SiblingsApart.not_forkMeets
    (apart : SiblingsApart root)
    (leftReached : Within root left)
    (rightReached : Within root right) :
    ¬ForkMeets left right := by
  rintro ⟨first, second, siblings, onLeft, onRight, meets⟩
  exact apart first second (leftReached.of_atOrAbove onLeft)
    (rightReached.of_atOrAbove onRight) siblings meets

/--
Two nodes of a well-nested tree are nested, share no byte, or meet where the tree
forks.
-/
theorem nestedOrApart_or_forkMeets
    (nested : root.Nested)
    (leftReached : Within root left)
    (rightReached : Within root right) :
    left.node.span.NestedOrApart right.node.span ∨
      ForkMeets left right := by
  rcases leftReached.line_or_fork rightReached with
    line | line | ⟨first, second, siblings, onLeft, onRight⟩
  · exact .inl (.inl (line.contains nested rightReached))
  · exact .inl (.inr (.inl (line.contains nested leftReached)))
  · by_cases meets : left.node.span.Meets right.node.span
    · -- The byte that they share is shared by the children they are below.
      right
      refine ⟨first, second, siblings, onLeft, onRight, ?_⟩
      exact meets.widen (onLeft.contains nested leftReached)
        (onRight.contains nested rightReached)
    · exact .inl (.inr (.inr meets))

end

/--
A declaration of two names over bytes 0 to 10, the first name over bytes 0 to 5 and
the second over bytes 3 to 8.
-/
def overlappingNames : Node where
  kind := .variableDeclaration
  span := .ofTested 0 10 (.refl true)
  children := [
    .leaf .identifier (.ofTested 0 5 (.refl true)),
    .leaf .identifier (.ofTested 3 8 (.refl true))]

/-- The names of the declaration lie within it. -/
theorem nested_overlappingNames :
    overlappingNames.Nested := by
  unfold Node.Nested
  decide

/-- The names share bytes, and neither contains the other. -/
theorem names_not_nestedOrApart :
    ¬(Span.ofTested 0 5 (.refl true)).NestedOrApart
      (.ofTested 3 8 (.refl true)) := by
  rintro (contains | contains | apart)
  · exact absurd contains (by decide)
  · exact absurd contains (by decide)
  · exact apart ⟨3, ⟨by decide, by decide⟩, ⟨by decide, by decide⟩⟩

/-- A full pass over the declaration highlights its two names. -/
theorem toList_run_overlappingNames :
    (Pass.run (Context.settings ⟨0, false⟩ .collect) overlappingNames
        Pass.rawHost).host.sink.toList =
      [{ span := .ofTested 0 5 (.refl true), tag := .variableIdentifier },
        { span := .ofTested 3 8 (.refl true),
          tag := .variableIdentifier }] := by
  have flagDown : Pass.rawHost.flags.isRaised 0 = false :=
    rfl
  exact Pass.toList_sink_run flagDown .collect overlappingNames

/--
The declaration passes the check, and it can be built step by step; the highlights
of its names share a byte though neither contains the other.
-/
theorem crossing_highlights :
    let emitted :=
      (Pass.run (Context.settings ⟨0, false⟩ .collect) overlappingNames
        Pass.rawHost).host.sink.toList
    overlappingNames.validate = .ok () ∧
      (Builder.run overlappingNames.bracketing).finish =
        .ok overlappingNames ∧
      ∃ left ∈ emitted,
        ∃ right ∈ emitted,
          ¬left.span.NestedOrApart right.span := by
  intro emitted
  have listed : emitted = _ := toList_run_overlappingNames
  refine ⟨Node.validate_eq_ok_iff.mpr nested_overlappingNames,
    Builder.finish_run_bracketing nested_overlappingNames, ?_⟩
  rw [listed]
  exact ⟨_, List.mem_cons_self,
    _, List.mem_cons_of_mem _ List.mem_cons_self, names_not_nestedOrApart⟩

/--
The highlights of an accepted tree cross only below siblings that meet.

A full pass appends its emissions, each with the span of the place that it is made
for. Of any two of them one contains the other, or they share no byte, or their
places are at or below two children of one node that share a byte. So where no two
siblings share a byte, all highlights are nested or apart.
-/
theorem crossing_needs_meeting_siblings
    (tree : Node)
    (accepted : tree.Accepted)
    (context : Context)
    (reporting : Reporting)
    (host : Host (Array Highlight))
    (flagDown : host.flags.isRaised context.family = false) :
    let result := Pass.run (context.settings reporting) tree host
    let emitted := emissions tree
    result.host.sink.toList = host.sink.toList ++ emitted.map highlight ∧
      (∀ emission ∈ emitted, Within tree emission.2) ∧
      (∀ first ∈ emitted,
        ∀ second ∈ emitted,
          (highlight first).span.NestedOrApart (highlight second).span ∨
            ForkMeets first.2 second.2) ∧
      (SiblingsApart tree →
        ∀ first ∈ emitted,
          ∀ second ∈ emitted,
            (highlight first).span.NestedOrApart (highlight second).span) := by
  intro result emitted
  have reached (emission : Tag × Occurrence) (member : emission ∈ emitted) :
      Within tree emission.2 :=
    within_of_mem_emissions member
  refine ⟨?_, reached, ?_, ?_⟩
  · rw [map_highlight_emissions]
    exact Pass.toList_sink_run flagDown reporting tree
  · intro first isFirst second isSecond
    exact nestedOrApart_or_forkMeets accepted.nested
      (reached first isFirst) (reached second isSecond)
  · intro apart first isFirst second isSecond
    have noFork :=
      apart.not_forkMeets (reached first isFirst) (reached second isSecond)
    exact (nestedOrApart_or_forkMeets accepted.nested
      (reached first isFirst) (reached second isSecond)).resolve_right noFork

/-- The two names whose highlights cross are at or below siblings that meet. -/
theorem crossing_needs_meeting_siblings_overlappingNames :
    overlappingNames.Accepted ∧
      Pass.rawHost.flags.isRaised 0 = false ∧
      ∃ first ∈ emissions overlappingNames,
        ∃ second ∈ emissions overlappingNames,
          (highlight first).span = .ofTested 0 5 (.refl true) ∧
          (highlight second).span = .ofTested 3 8 (.refl true) ∧
          ForkMeets first.2 second.2 := by
  have accepted : overlappingNames.Accepted :=
    .inl (Node.validate_eq_ok_iff.mpr nested_overlappingNames)
  have flagDown : Pass.rawHost.flags.isRaised 0 = false :=
    rfl
  obtain ⟨holds, _, alternatives, _⟩ :=
    crossing_needs_meeting_siblings overlappingNames accepted ⟨0, false⟩
      .collect Pass.rawHost flagDown
  have listed : (emissions overlappingNames).map highlight = _ :=
    holds.symm.trans toList_run_overlappingNames
  obtain ⟨first, isFirst, firstSame⟩ :=
    List.mem_map.mp (listed ▸ List.mem_cons_self)
  obtain ⟨second, isSecond, secondSame⟩ :=
    List.mem_map.mp (listed ▸ List.mem_cons_of_mem _ List.mem_cons_self)
  have firstSpan := congrArg Highlight.span firstSame
  have secondSpan := congrArg Highlight.span secondSame
  refine ⟨accepted, flagDown, first, isFirst, second, isSecond,
    firstSpan, secondSpan, ?_⟩
  apply (alternatives first isFirst second isSecond).resolve_left
  rw [firstSpan, secondSpan]
  exact names_not_nestedOrApart

end Occurrence

end ShaderTint
