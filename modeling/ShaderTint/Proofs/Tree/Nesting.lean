import ShaderTint.Tree.Containment

namespace ShaderTint.Node

/-!
# Well-nested trees

A tree is well nested when every child lies within its parent, all the way down.

Main statements: `validate_eq_ok_iff` says that the check accepts just the
well-nested trees, and `nested_iff` gives the condition by recursion over the tree.
-/

/-- Every child lies within its parent. -/
def Nested
    (root : Node) :
    Prop :=
  ∀ node ∈ root.preorder,
    ∀ child ∈ node.children,
      node.span.Contains child.span

/-- The nodes of several trees are the nodes of each. -/
theorem mem_preorderOfForest_iff
    {node : Node}
    {forest : List Node} :
    node ∈ preorderOfForest forest ↔ ∃ tree ∈ forest, node ∈ tree.preorder := by
  induction forest with
  | nil =>
      simp [preorderOfForest]
  | cons tree rest inductionHypothesis =>
      simp [preorderOfForest, inductionHypothesis]

/-- The nodes of a tree are its root and the nodes of its children's trees. -/
theorem mem_preorder_iff
    {node root : Node} :
    node ∈ root.preorder ↔
      node = root ∨ ∃ child ∈ root.children, node ∈ child.preorder := by
  rw [preorder_eq, List.mem_cons, mem_preorderOfForest_iff]

/-- A tree is well nested when its children lie within it and are well nested. -/
theorem nested_iff
    {root : Node} :
    root.Nested ↔
      ∀ child ∈ root.children,
        root.span.Contains child.span ∧ child.Nested := by
  constructor
  · intro nested child isChild
    refine ⟨nested root (mem_preorder_iff.mpr (.inl rfl)) child isChild, ?_⟩
    intro node below
    exact nested node (mem_preorder_iff.mpr (.inr ⟨child, isChild, below⟩))
  · intro nestedChildren node inTree
    rcases mem_preorder_iff.mp inTree with isRoot | ⟨child, isChild, below⟩
    · subst node
      intro child isChild
      exact (nestedChildren child isChild).1
    · exact (nestedChildren child isChild).2 node below

/-- No child of a node is reported when all of them lie within the node. -/
theorem firstEscape?_eq_none_iff
    {node : Node} :
    node.firstEscape? = none ↔
      ∀ child ∈ node.children, node.span.Contains child.span := by
  simp [firstEscape?]

/-- The check accepts just the well-nested trees. -/
theorem validate_eq_ok_iff
    {root : Node} :
    root.validate = .ok () ↔ root.Nested := by
  have accepts :
      root.validate = .ok () ↔
        root.preorder.findSome? firstEscape? = none := by
    rw [validate, toList_descendants]
    cases root.preorder.findSome? firstEscape? <;> simp
  rw [accepts, List.findSome?_eq_none_iff]
  simp only [firstEscape?_eq_none_iff]
  rfl

end ShaderTint.Node
