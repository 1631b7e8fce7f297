import ShaderTint.Kind
import ShaderTint.Span

namespace ShaderTint

/-!
# What can be wrong with a tree

`TreeFault` lists the ways in which a sequence of building steps, or a finished
tree, fails to be a well-nested tree. `ShapeMismatch` is a part of a construct
that is present but of the wrong kind.
-/

/-- Why building steps give no tree, or a tree is not well nested. -/
inductive TreeFault where
  | unbalancedFinish
  | unclosedNodes (count : Nat)
  | multipleRoots
  | empty
  | childOutsideParent
      (parent : Kind)
      (parentSpan : Span)
      (child : Kind)
      (childSpan : Span)
  | invertedRange (kind : Kind) (bounds : Bounds)
  deriving DecidableEq

/-- The fault in words. -/
def TreeFault.message : TreeFault → String
  | .unbalancedFinish => "finish_node called with no open node"
  | .unclosedNodes count => toString count ++ " node(s) left open"
  | .multipleRoots => "tree has more than one root"
  | .empty => "tree is empty"
  | .childOutsideParent parent parentSpan child childSpan =>
      child.name ++ " at " ++ childSpan.text ++
        " lies outside its parent " ++
        parent.name ++ " at " ++ parentSpan.text
  | .invertedRange kind bounds =>
      kind.name ++ " has inverted range " ++ bounds.text

/-- A part of a construct that is present but of the wrong kind. -/
structure ShapeMismatch where
  node : Kind
  expected : Kind
  found : Kind
  span : Span
  deriving DecidableEq

/-- The mismatch in words. -/
def ShapeMismatch.message
    (mismatch : ShapeMismatch) :
    String :=
  "Shape mismatch in " ++ mismatch.node.name ++
    " at " ++ mismatch.span.text ++
    ": expected " ++ mismatch.expected.name ++
    ", found " ++ mismatch.found.name

end ShaderTint
