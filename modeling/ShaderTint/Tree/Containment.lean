import ShaderTint.Tree.Fault
import ShaderTint.Tree.Walk

namespace ShaderTint

/-!
# Containment

In a well-nested tree every child lies within its parent. `Node.validate`
reports the first edge that breaks this, by the parent's place in document
order and then by the child's place among its siblings.
-/

namespace Node

/-- The fault of a child that escapes its parent. -/
def escape
    (parent child : Node) :
    TreeFault :=
  .childOutsideParent parent.kind parent.span child.kind child.span

/-- The first child that escapes a node, as a fault. -/
def firstEscape?
    (parent : Node) :
    Option TreeFault :=
  (parent.children.find? fun child =>
    !decide (parent.span.Contains child.span)).map parent.escape

/-- Check that every child lies within its parent. -/
def validate
    (root : Node) :
    Except TreeFault Unit :=
  match root.descendants.toList.findSome? firstEscape? with
  | some fault => .error fault
  | none => .ok ()

end Node

end ShaderTint
