import ShaderTint.Kind
import ShaderTint.Span

namespace ShaderTint

/-!
# Trees

A node has a kind, a span and children in document order. Trees may be very
deep, so what runs over whole trees keeps its pending work in a list (see
`ShaderTint.Tree.Walk`); the plain recursions here are what that work is
measured against.
-/

/-- A construct of the source and the constructs inside it. -/
structure Node where
  kind : Kind
  span : Span
  children : List Node

namespace Node

/-- A node without children. -/
def leaf
    (kind : Kind)
    (span : Span) :
    Node where
  kind := kind
  span := span
  children := []

/-- First child of a kind. -/
def childOfKind?
    (node : Node)
    (kind : Kind) :
    Option Node :=
  node.children.find? (·.kind == kind)

/-- All children of a kind. -/
def childrenOfKind
    (node : Node)
    (kind : Kind) :
    List Node :=
  node.children.filter (·.kind == kind)

mutual

/-- Number of nodes of a tree. -/
def size : Node → Nat
  | ⟨_, _, children⟩ => sizeOfForest children + 1

/-- Number of nodes of a list of trees. -/
def sizeOfForest : List Node → Nat
  | [] => 0
  | node :: rest => node.size + sizeOfForest rest

end

mutual

/-- Number of nodes on the longest way down a tree; a leaf has height one. -/
def height : Node → Nat
  | ⟨_, _, children⟩ => heightOfForest children + 1

/-- The largest height in a list of trees. -/
def heightOfForest : List Node → Nat
  | [] => 0
  | node :: rest => max node.height (heightOfForest rest)

end

mutual

/-- The nodes of a tree in document order: a node, then its children's trees. -/
def preorder : Node → List Node
  | ⟨kind, span, children⟩ =>
      ⟨kind, span, children⟩ :: preorderOfForest children

/-- The nodes of a list of trees in document order. -/
def preorderOfForest : List Node → List Node
  | [] => []
  | node :: rest => node.preorder ++ preorderOfForest rest

end

/-- A tree has a node more than its children's trees. -/
theorem size_eq
    (node : Node) :
    node.size = sizeOfForest node.children + 1 := by
  cases node
  simp [size]

/-- The size of two lists of trees together. -/
theorem sizeOfForest_append
    (left right : List Node) :
    sizeOfForest (left ++ right) =
      sizeOfForest left + sizeOfForest right := by
  induction left with
  | nil =>
      simp [sizeOfForest]
  | cons node rest inductionHypothesis =>
      simp [sizeOfForest, inductionHypothesis, Nat.add_assoc]

/-- Document order starts with the node and goes on with its children. -/
theorem preorder_eq
    (node : Node) :
    node.preorder = node :: preorderOfForest node.children := by
  cases node
  simp [preorder]

/-- Document order of two lists of trees together. -/
theorem preorderOfForest_append
    (left right : List Node) :
    preorderOfForest (left ++ right) =
      preorderOfForest left ++ preorderOfForest right := by
  induction left with
  | nil =>
      simp [preorderOfForest]
  | cons node rest inductionHypothesis =>
      simp [preorderOfForest, inductionHypothesis]

mutual

/-- Decide whether two trees are equal. -/
def decEq : (left right : Node) → Decidable (left = right)
  | ⟨leftKind, leftSpan, leftChildren⟩, ⟨rightKind, rightSpan, rightChildren⟩ =>
      if sameKind : leftKind = rightKind then
        if sameSpan : leftSpan = rightSpan then
          match decEqForest leftChildren rightChildren with
          | .isTrue sameChildren =>
              .isTrue (by rw [sameKind, sameSpan, sameChildren])
          | .isFalse different =>
              .isFalse (fun same => different (Node.mk.inj same).2.2)
        else
          .isFalse (fun same => sameSpan (Node.mk.inj same).2.1)
      else
        .isFalse (fun same => sameKind (Node.mk.inj same).1)

/-- Decide whether two lists of trees are equal. -/
def decEqForest : (left right : List Node) → Decidable (left = right)
  | [], [] => .isTrue rfl
  | [], _ :: _ => .isFalse (by simp)
  | _ :: _, [] => .isFalse (by simp)
  | left :: leftRest, right :: rightRest =>
      match decEq left right with
      | .isTrue sameHead =>
          match decEqForest leftRest rightRest with
          | .isTrue sameRest => .isTrue (by rw [sameHead, sameRest])
          | .isFalse different =>
              .isFalse (fun same => different (List.cons.inj same).2)
      | .isFalse different =>
          .isFalse (fun same => different (List.cons.inj same).1)

end

instance : DecidableEq Node :=
  decEq

end Node

end ShaderTint
