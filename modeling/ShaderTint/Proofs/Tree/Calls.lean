import ShaderTint.Tree.Walk

namespace ShaderTint

/-!
# Walks call by call

A walk is asked for one node at a time. The trees that it holds between two calls
come from different levels of the tree, and there may be more of them after a call
than before. What they stand for only loses its first node with every call: the nodes
of all of them, from the nearest on, are those that the walk has still to yield.

Main statements: `Walk.ahead_after` and `Walk.answer_after` for any walk, and
`Walk.after_ofNode` for the walk of a tree.
-/

namespace Node

/-- Document order of a list of trees is that of each of them in turn. -/
theorem preorderOfForest_eq_flatMap
    (nodes : List Node) :
    preorderOfForest nodes = nodes.flatMap preorder := by
  induction nodes with
  | nil =>
      simp [preorderOfForest]
  | cons node rest inductionHypothesis =>
      rw [preorderOfForest, inductionHypothesis, List.flatMap_cons]

mutual

/-- Document order lists every node of a tree once. -/
theorem length_preorder :
    ∀ node : Node,
      node.preorder.length = node.size
  | ⟨_, _, children⟩ => by
      simp [preorder, size, length_preorderOfForest children]

theorem length_preorderOfForest :
    ∀ nodes : List Node,
      (preorderOfForest nodes).length = sizeOfForest nodes
  | [] => by
      simp [preorderOfForest, sizeOfForest]
  | node :: rest => by
      simp [preorderOfForest, sizeOfForest, length_preorder node,
        length_preorderOfForest rest]

end

end Node

namespace Walk

/-- The nodes of the trees that a walk holds, from the nearest tree on. -/
def ahead
    (walk : Walk) :
    List Node :=
  walk.pending.flatMap Node.preorder

/-- Ask a walk for its next node. A walk that has none left stays as it is. -/
def call
    (walk : Walk) :
    Option Node × Walk :=
  match walk.next? with
  | some (node, rest) => (some node, rest)
  | none => (none, walk)

/-- What a walk answers when it is asked for its next node. -/
def answer
    (walk : Walk) :
    Option Node :=
  walk.call.1

/-- A walk after so many calls. -/
def after
    (walk : Walk) :
    Nat → Walk
  | 0 => walk
  | calls + 1 => (walk.after calls).call.2

/-- The next node is the first of those ahead. -/
theorem answer_eq_head?
    (walk : Walk) :
    walk.answer = walk.ahead.head? := by
  obtain ⟨pending⟩ := walk
  cases pending with
  | nil =>
      rfl
  | cons node rest =>
      rw [ahead, List.flatMap_cons, Node.preorder_eq]
      rfl

/-- A call takes one node off those ahead, if there is one. -/
theorem ahead_call
    (walk : Walk) :
    walk.call.2.ahead = walk.ahead.tail := by
  obtain ⟨pending⟩ := walk
  cases pending with
  | nil =>
      rfl
  | cons node rest =>
      calc
        ahead ⟨node.children ++ rest⟩ =
            node.children.flatMap Node.preorder ++
              rest.flatMap Node.preorder :=
          List.flatMap_append
        _ = (ahead ⟨node :: rest⟩).tail := by
          rw [ahead, List.flatMap_cons, Node.preorder_eq,
            Node.preorderOfForest_eq_flatMap]
          rfl

/-- So many calls take so many nodes off those ahead. -/
theorem ahead_after
    (walk : Walk)
    (calls : Nat) :
    (walk.after calls).ahead = walk.ahead.drop calls := by
  induction calls with
  | zero =>
      rfl
  | succ calls inductionHypothesis =>
      rw [after, ahead_call, inductionHypothesis, List.tail_drop]

/-- The calls are answered with the nodes ahead in their order, and then with nothing. -/
theorem answer_after
    (walk : Walk)
    (calls : Nat) :
    (walk.after calls).answer = walk.ahead[calls]? := by
  rw [answer_eq_head?, ahead_after, List.head?_drop]

@[simp]
theorem ahead_ofNode
    (root : Node) :
    (ofNode root).ahead = root.preorder :=
  List.flatMap_singleton Node.preorder root

/-- The trees that a walk holds have as many nodes as calls will be answered with one. -/
theorem sizeOfForest_pending
    (walk : Walk) :
    Node.sizeOfForest walk.pending = walk.ahead.length := by
  rw [ahead, ← Node.preorderOfForest_eq_flatMap,
    Node.length_preorderOfForest]

/--
What a walk of a tree holds after so many calls, and what it answers to the next one.

The measure of what it holds goes down by one with each call that is answered with a
node, so there are as many of these as the tree has nodes.
-/
theorem after_ofNode
    (tree : Node)
    (calls : Nat) :
    let held := (ofNode tree).after calls
    held.pending.flatMap Node.preorder = tree.preorder.drop calls ∧
      Node.sizeOfForest held.pending = tree.size - calls ∧
      held.answer = tree.preorder[calls]? ∧
      (held.answer = none ↔ tree.size ≤ calls) := by
  intro held
  have isAhead : held.ahead = tree.preorder.drop calls := by
    rw [ahead_after, ahead_ofNode]
  have isAnswer : held.answer = tree.preorder[calls]? := by
    rw [answer_after, ahead_ofNode]
  refine ⟨isAhead, ?_, isAnswer, ?_⟩
  · rw [sizeOfForest_pending, isAhead, List.length_drop, Node.length_preorder]
  · rw [isAnswer, List.getElem?_eq_none_iff, Node.length_preorder]

end Walk

end ShaderTint
