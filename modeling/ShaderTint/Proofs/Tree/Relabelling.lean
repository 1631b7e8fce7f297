import Mathlib.Data.List.Find
import ShaderTint.Proofs.Tree.Nesting

namespace ShaderTint

/-!
# Trees with other spans

A map of spans is applied to every node of a tree and leaves kinds and children as
they are. A map may keep the order of the starts and of the stops of the spans that
it is applied to; moving all spans by one distance does.

Main statement: `Node.validate_mapSpans` says that the check of a tree does not
notice such a map, but for the spans that it reports.
-/

namespace Span

/-- Among these spans, the map keeps the order of starts and the order of stops. -/
structure KeepsOrder
    (f : Span → Span)
    (spans : List Span) :
    Prop where
  start_lt_iff :
    ∀ left ∈ spans,
      ∀ right ∈ spans,
        ((f left).start < (f right).start ↔ left.start < right.start)
  stop_lt_iff :
    ∀ left ∈ spans,
      ∀ right ∈ spans,
        ((f left).stop < (f right).stop ↔ left.stop < right.stop)

section

variable {f : Span → Span} {spans : List Span} {left right : Span}

/-- Fewer spans are kept in order as well. -/
theorem KeepsOrder.mono
    {fewer : List Span}
    (keeps : KeepsOrder f spans)
    (among : fewer ⊆ spans) :
    KeepsOrder f fewer where
  start_lt_iff := fun first isFirst second isSecond =>
    keeps.start_lt_iff first (among isFirst) second (among isSecond)
  stop_lt_iff := fun first isFirst second isSecond =>
    keeps.stop_lt_iff first (among isFirst) second (among isSecond)

/-- Spans kept in order are kept apart. -/
theorem KeepsOrder.eq_iff
    (keeps : KeepsOrder f spans)
    (isLeft : left ∈ spans)
    (isRight : right ∈ spans) :
    f left = f right ↔ left = right := by
  have starts := keeps.start_lt_iff left isLeft right isRight
  have startsBack := keeps.start_lt_iff right isRight left isLeft
  have stops := keeps.stop_lt_iff left isLeft right isRight
  have stopsBack := keeps.stop_lt_iff right isRight left isLeft
  constructor
  · intro same
    rw [same] at starts startsBack stops stopsBack
    exact Span.ext (by omega) (by omega)
  · intro same
    rw [same]

/-- Spans kept in order lie within each other as before. -/
theorem KeepsOrder.contains_iff
    (keeps : KeepsOrder f spans)
    (isLeft : left ∈ spans)
    (isRight : right ∈ spans) :
    (f left).Contains (f right) ↔ left.Contains right := by
  have starts := keeps.start_lt_iff right isRight left isLeft
  have stops := keeps.stop_lt_iff left isLeft right isRight
  unfold Contains
  omega

end

/-! ## Moving spans -/

/-- Moved by a distance, the span still lies between the first and the last offset. -/
def FitsShift
    (distance : Int)
    (span : Span) :
    Prop :=
  0 ≤ span.start + distance ∧ span.stop + distance < offsetLimit

instance (distance : Int) (span : Span) :
    Decidable (span.FitsShift distance) :=
  inferInstanceAs (Decidable (_ ∧ _))

/-- The span moved by a distance; one that does not fit is left where it is. -/
def shift
    (distance : Int)
    (span : Span) :
    Span :=
  if fits : span.FitsShift distance then
    {
      start := (span.start + distance).toNat
      stop := (span.stop + distance).toNat
      start_le_stop := by
        have ordered := span.start_le_stop
        omega
      stop_lt := by
        have moved := fits.2
        have ordered := span.start_le_stop
        have notBelow := fits.1
        omega
    }
  else
    span

/-- Both ends of a span that fits are moved by the distance. -/
theorem ends_shift
    {distance : Int}
    {span : Span}
    (fits : span.FitsShift distance) :
    ((span.shift distance).start : Int) = span.start + distance ∧
      ((span.shift distance).stop : Int) = span.stop + distance := by
  have ordered := span.start_le_stop
  have notBelow := fits.1
  rw [shift, dif_pos fits]
  constructor
  · exact Int.toNat_of_nonneg notBelow
  · exact Int.toNat_of_nonneg (by omega)

/-- Spans that fit keep their order when they are all moved by one distance. -/
theorem keepsOrder_shift
    {distance : Int}
    {spans : List Span}
    (fit : ∀ span ∈ spans, span.FitsShift distance) :
    KeepsOrder (shift distance) spans where
  start_lt_iff := by
    intro left isLeft right isRight
    have leftEnds := ends_shift (fit left isLeft)
    have rightEnds := ends_shift (fit right isRight)
    omega
  stop_lt_iff := by
    intro left isLeft right isRight
    have leftEnds := ends_shift (fit left isLeft)
    have rightEnds := ends_shift (fit right isRight)
    omega

end Span

/-- The fault with a map applied to the spans that it names. -/
def TreeFault.mapSpans
    (f : Span → Span) :
    TreeFault → TreeFault
  | .childOutsideParent parent parentSpan child childSpan =>
      .childOutsideParent parent (f parentSpan) child (f childSpan)
  | other => other

namespace Node

mutual

/-- The tree with a map applied to the span of every node. -/
def mapSpans
    (f : Span → Span) :
    Node → Node
  | ⟨kind, span, children⟩ =>
      ⟨kind, f span, mapSpansOfForest f children⟩

/-- The trees with a map applied to the span of every node. -/
def mapSpansOfForest
    (f : Span → Span) :
    List Node → List Node
  | [] => []
  | node :: rest => node.mapSpans f :: mapSpansOfForest f rest

end

theorem mapSpansOfForest_eq_map
    (f : Span → Span)
    (forest : List Node) :
    mapSpansOfForest f forest = forest.map (mapSpans f) := by
  induction forest with
  | nil =>
      rfl
  | cons node rest inductionHypothesis =>
      rw [mapSpansOfForest, inductionHypothesis, List.map_cons]

section

variable (f : Span → Span) (node : Node)

@[simp]
theorem kind_mapSpans :
    (node.mapSpans f).kind = node.kind := by
  cases node
  rw [mapSpans]

@[simp]
theorem span_mapSpans :
    (node.mapSpans f).span = f node.span := by
  cases node
  rw [mapSpans]

@[simp]
theorem children_mapSpans :
    (node.mapSpans f).children = node.children.map (mapSpans f) := by
  cases node
  rw [mapSpans, mapSpansOfForest_eq_map]

end

mutual

/-- A map of spans is applied to the nodes where they stand. -/
theorem preorder_mapSpans
    (f : Span → Span) :
    ∀ node : Node,
      (node.mapSpans f).preorder = node.preorder.map (mapSpans f)
  | ⟨kind, span, children⟩ => by
      rw [preorder_eq, children_mapSpans, ← mapSpansOfForest_eq_map,
        preorderOfForest_mapSpans f children, preorder, List.map_cons]

theorem preorderOfForest_mapSpans
    (f : Span → Span) :
    ∀ forest : List Node,
      preorderOfForest (mapSpansOfForest f forest) =
        (preorderOfForest forest).map (mapSpans f)
  | [] => by
      rfl
  | node :: rest => by
      rw [mapSpansOfForest, preorderOfForest, preorderOfForest,
        preorder_mapSpans f node, preorderOfForest_mapSpans f rest,
        List.map_append]

end

mutual

/-- The children of a node of a tree are nodes of the tree. -/
theorem child_mem_preorder
    {parent child : Node}
    (isChild : child ∈ parent.children) :
    ∀ {root : Node},
      parent ∈ root.preorder →
      child ∈ root.preorder
  | ⟨kind, span, children⟩, inTree => by
      rw [preorder, List.mem_cons] at inTree ⊢
      right
      rcases inTree with isRoot | below
      · subst isRoot
        exact mem_preorderOfForest_iff.mpr
          ⟨child, isChild, mem_preorder_iff.mpr (.inl rfl)⟩
      · exact child_mem_preorderOfForest isChild below

theorem child_mem_preorderOfForest
    {parent child : Node}
    (isChild : child ∈ parent.children) :
    ∀ {forest : List Node},
      parent ∈ preorderOfForest forest →
      child ∈ preorderOfForest forest
  | [], inForest => by
      simp [preorderOfForest] at inForest
  | node :: rest, inForest => by
      rw [preorderOfForest, List.mem_append] at inForest ⊢
      exact inForest.imp (child_mem_preorder isChild)
        (child_mem_preorderOfForest isChild)

end

/-- The spans of a tree's nodes in document order. -/
def spans
    (root : Node) :
    List Span :=
  root.preorder.map (·.span)

/-- The first child that escapes a node is the same one with other spans. -/
theorem firstEscape?_mapSpans
    {f : Span → Span}
    {root node : Node}
    (keeps : Span.KeepsOrder f root.spans)
    (inTree : node ∈ root.preorder) :
    (node.mapSpans f).firstEscape? =
      node.firstEscape?.map (TreeFault.mapSpans f) := by
  have sameChild :
      node.children.find? (fun child =>
          !decide ((f node.span).Contains (f child.span))) =
        node.children.find? fun child =>
          !decide (node.span.Contains child.span) := by
    apply List.find?_congr
    intro child isChild
    have contains :=
      keeps.contains_iff (List.mem_map_of_mem inTree)
        (List.mem_map_of_mem (child_mem_preorder isChild inTree))
    rw [decide_eq_decide.mpr contains]
  have sameFault :
      (node.mapSpans f).escape ∘ mapSpans f =
        TreeFault.mapSpans f ∘ node.escape := by
    funext child
    simp [escape, TreeFault.mapSpans]
  simp only [firstEscape?, children_mapSpans, span_mapSpans, List.find?_map,
    Function.comp_def, Option.map_map] at sameFault ⊢
  rw [sameChild, sameFault]

/-- The first fault among nodes of a tree is the same one with other spans. -/
theorem findSome?_firstEscape?_mapSpans
    {f : Span → Span}
    {root : Node}
    (keeps : Span.KeepsOrder f root.spans)
    {nodes : List Node}
    (inTree : nodes ⊆ root.preorder) :
    (nodes.map (mapSpans f)).findSome? firstEscape? =
      (nodes.findSome? firstEscape?).map (TreeFault.mapSpans f) := by
  induction nodes with
  | nil =>
      rfl
  | cons node rest inductionHypothesis =>
      obtain ⟨here, later⟩ := List.cons_subset.mp inTree
      rw [List.map_cons, List.findSome?_cons, List.findSome?_cons,
        firstEscape?_mapSpans keeps here, inductionHypothesis later]
      cases node.firstEscape? <;> rfl

/-- The check of a tree does not notice a map that keeps the order of its spans. -/
theorem validate_mapSpans
    {f : Span → Span}
    {root : Node}
    (keeps : Span.KeepsOrder f root.spans) :
    (root.mapSpans f).validate =
      root.validate.mapError (TreeFault.mapSpans f) := by
  rw [validate, validate, toList_descendants, toList_descendants,
    preorder_mapSpans,
    findSome?_firstEscape?_mapSpans keeps (List.Subset.refl _)]
  cases root.preorder.findSome? firstEscape? <;> rfl

end Node

end ShaderTint
