import ShaderTint.Tree.Node

namespace ShaderTint

/-!
# Walking a tree in document order

A walk holds the trees still to be visited, nearest first. One step yields the
first of them and puts its children in its place, so a walk of a tree of any
depth needs no call stack.

Main statement: `Node.toList_descendants` says that a walk yields the nodes of a
tree in document order, as the plain recursion `Node.preorder` lists them.
-/

/-- The trees that a walk still has to visit, nearest first. -/
structure Walk where
  pending : List Node

namespace Walk

/-- A walk of one tree. -/
def ofNode
    (root : Node) :
    Walk where
  pending := [root]

/-- The next node, and the walk after it. -/
def next? : Walk → Option (Node × Walk)
  | ⟨[]⟩ => none
  | ⟨node :: rest⟩ => some (node, ⟨node.children ++ rest⟩)

/-- Append the nodes of the pending trees to those already visited. -/
def collect
    (visited : Array Node)
    (pending : List Node) :
    Array Node :=
  match pending with
  | [] => visited
  | node :: rest =>
      collect (visited.push node) (node.children ++ rest)
termination_by Node.sizeOfForest pending
decreasing_by
  simp only [Node.sizeOfForest, Node.sizeOfForest_append, Node.size_eq]
  omega

/-- Collecting appends the pending trees in document order. -/
theorem toList_collect
    (visited : Array Node)
    (pending : List Node) :
    (collect visited pending).toList =
      visited.toList ++ Node.preorderOfForest pending := by
  fun_induction collect visited pending with
  | case1 visited =>
      simp [Node.preorderOfForest]
  | case2 visited node rest inductionHypothesis =>
      rw [inductionHypothesis]
      simp [Node.preorderOfForest, Node.preorder_eq,
        Node.preorderOfForest_append]

/-- All nodes that a walk has still to yield. -/
def toArray
    (walk : Walk) :
    Array Node :=
  collect #[] walk.pending

end Walk

/-- A tree's nodes in the order in which a walk yields them. -/
def Node.descendants
    (node : Node) :
    Array Node :=
  (Walk.ofNode node).toArray

/-- A walk of a tree yields its nodes in document order. -/
theorem Node.toList_descendants
    (node : Node) :
    node.descendants.toList = node.preorder := by
  simp [Node.descendants, Walk.toArray, Walk.ofNode, Walk.toList_collect,
    Node.preorderOfForest]

end ShaderTint
