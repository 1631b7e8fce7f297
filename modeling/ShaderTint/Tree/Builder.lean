import ShaderTint.Tree.Fault
import ShaderTint.Tree.Node

namespace ShaderTint

/-!
# Building a tree step by step

A front end enters and leaves constructs and reports leaves on the way. No step
is refused: the first fault is remembered and `Builder.finish` reports it, so
building can go on over a broken stream. Spans are given explicitly and need
not cover their parent.
-/

/-- One step of building a tree. -/
inductive BuildStep where
  | enter (kind : Kind) (bounds : Bounds)
  | leaf (kind : Kind) (bounds : Bounds)
  | leave
  deriving DecidableEq

/-- A node that has been entered and not yet left. -/
structure OpenNode where
  kind : Kind
  span : Span
  children : Array Node

/-- The node that an open node becomes when it is left. -/
def OpenNode.close
    (opened : OpenNode) :
    Node where
  kind := opened.kind
  span := opened.span
  children := opened.children.toList

/-- A tree under construction. -/
structure Builder where
  /-- Open nodes, innermost first. -/
  opened : List OpenNode
  /-- The completed top-level node. -/
  root : Option Node
  /-- The first fault. -/
  fault : Option TreeFault

namespace Builder

/-- Nothing built yet. -/
def empty : Builder where
  opened := []
  root := none
  fault := none

/-- Number of open nodes. -/
def depth
    (builder : Builder) :
    Nat :=
  builder.opened.length

/-- Remember a fault unless there was one before. -/
def fail
    (builder : Builder)
    (fault : TreeFault) :
    Builder :=
  { builder with fault := builder.fault.or (some fault) }

/--
The span of new bounds.

Inverted bounds are a fault; an empty span at their start stands in for them,
and never shows because the builder has failed.
-/
def spanFor
    (builder : Builder)
    (kind : Kind)
    (bounds : Bounds) :
    Span × Builder :=
  match Span.ofBounds? bounds with
  | some span => (span, builder)
  | none => (Span.emptyAt bounds, builder.fail (.invertedRange kind bounds))

/-- Give a completed node to the innermost open node, or make it the root. -/
def attach
    (builder : Builder)
    (node : Node) :
    Builder :=
  match builder with
  | ⟨parent :: outer, root, fault⟩ =>
      if parent.span.Contains node.span then
        ⟨{ parent with children := parent.children.push node } :: outer,
          root, fault⟩
      else
        fail ⟨parent :: outer, root, fault⟩
          (.childOutsideParent parent.kind parent.span node.kind node.span)
  | ⟨[], none, fault⟩ => ⟨[], some node, fault⟩
  | ⟨[], some root, fault⟩ => fail ⟨[], some root, fault⟩ .multipleRoots

/-- Open a node. -/
def enter
    (builder : Builder)
    (kind : Kind)
    (bounds : Bounds) :
    Builder :=
  let (span, builder) := builder.spanFor kind bounds
  { builder with
    opened := { kind := kind, span := span, children := #[] } ::
      builder.opened }

/-- Add a node without children. -/
def leaf
    (builder : Builder)
    (kind : Kind)
    (bounds : Bounds) :
    Builder :=
  let (span, builder) := builder.spanFor kind bounds
  builder.attach (Node.leaf kind span)

/-- Close the innermost open node. -/
def leave : Builder → Builder
  | ⟨innermost :: outer, root, fault⟩ =>
      attach ⟨outer, root, fault⟩ innermost.close
  | ⟨[], root, fault⟩ => fail ⟨[], root, fault⟩ .unbalancedFinish

/-- Take one step. -/
def step
    (builder : Builder) :
    BuildStep → Builder
  | .enter kind bounds => builder.enter kind bounds
  | .leaf kind bounds => builder.leaf kind bounds
  | .leave => builder.leave

/-- Take steps in order, starting from nothing. -/
def run
    (steps : List BuildStep) :
    Builder :=
  steps.foldl step empty

/-- The finished tree, or the first fault. -/
def finish
    (builder : Builder) :
    Except TreeFault Node :=
  match builder.fault with
  | some fault => .error fault
  | none =>
      if builder.opened.isEmpty then
        match builder.root with
        | some root => .ok root
        | none => .error .empty
      else
        .error (.unclosedNodes builder.depth)

end Builder

end ShaderTint
