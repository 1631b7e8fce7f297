import ShaderTint.Proofs.Pass.Account
import ShaderTint.Proofs.Tree.Nesting

namespace ShaderTint

/-!
# Highlights lie within the tree

Every highlight has the span of a node of the tree. In a well-nested tree the spans
of all nodes lie within that of the root, hence so do all highlights.

Main statements: `Occurrence.exists_within_of_mem_highlights` and
`Occurrence.contains_of_mem_highlights`.
-/

namespace Occurrence

/-- What can be reached in a well-nested tree lies within the root and is well nested. -/
theorem Within.contains
    {root : Node}
    {occurrence : Occurrence}
    (reached : Within root occurrence)
    (nested : root.Nested) :
    root.span.Contains occurrence.node.span ∧ occurrence.node.Nested := by
  induction reached with
  | ofRoot =>
      exact ⟨Span.Contains.refl _, nested⟩
  | child _ present inductionHypothesis =>
      obtain ⟨rootContains, nestedHere⟩ := inductionHypothesis
      obtain ⟨containsChild, nestedChild⟩ :=
        Node.nested_iff.mp nestedHere _ (List.mem_of_getElem? present)
      exact ⟨rootContains.trans containsChild, nestedChild⟩

/-- Every highlight of a pass is meant for a node of the tree. -/
theorem exists_within_of_mem_highlights
    {root : Node}
    {highlight : Highlight}
    (member : highlight ∈ (Table.inTree none root).map highlightOf) :
    ∃ occurrence,
      Within root occurrence ∧ highlight.span = occurrence.node.span := by
  rw [← map_highlight_emissions] at member
  obtain ⟨⟨tag, occurrence⟩, emitted, rfl⟩ := List.mem_map.mp member
  exact ⟨occurrence, within_of_mem_emissions emitted, rfl⟩

/-- In a well-nested tree every highlight lies within the root. -/
theorem contains_of_mem_highlights
    {root : Node}
    (nested : root.Nested)
    {highlight : Highlight}
    (member : highlight ∈ (Table.inTree none root).map highlightOf) :
    root.span.Contains highlight.span := by
  obtain ⟨occurrence, reached, sameSpan⟩ :=
    exists_within_of_mem_highlights member
  rw [sameSpan]
  exact (reached.contains nested).1

end Occurrence

end ShaderTint
