import ShaderTint.Proofs.Highlight.Relabelling
import ShaderTint.Proofs.Pass.Containment
import ShaderTint.Proofs.Pass.Interruption

namespace ShaderTint

/-!
# Classification sees shapes only

No rule compares offsets. So whatever is done to the spans of a tree is done to the
spans of its highlights and mismatches, and nothing else changes. The views of the
highlights and the check of the tree do compare offsets; they follow a map that
keeps their order, as moving the whole tree does.

Main statement: `Pass.run_sees_shapes_only`.
-/

/-- The mismatch with a map applied to its span. -/
def ShapeMismatch.mapSpan
    (f : Span → Span)
    (mismatch : ShapeMismatch) :
    ShapeMismatch :=
  { mismatch with span := f mismatch.span }

namespace Pass

/-! ## Frames and effects -/

/-- The frame with a map applied to all its spans. -/
def Frame.mapSpans
    (f : Span → Span)
    (frame : Frame) :
    Frame where
  node := frame.node.mapSpans f
  parent := frame.parent.map (Node.mapSpans f)

mutual

/-- A tree with other spans is taken up in the same frames, with these spans. -/
theorem framesOf_mapSpans
    (f : Span → Span)
    (parent : Option Node) :
    ∀ node : Node,
      framesOf (parent.map (Node.mapSpans f)) (node.mapSpans f) =
        (framesOf parent node).map (Frame.mapSpans f)
  | ⟨kind, span, children⟩ => by
      rw [framesOf_eq, Node.children_mapSpans, framesOf, List.map_cons,
        ← framesOfForest_mapSpans f ⟨kind, span, children⟩ children]
      rfl

theorem framesOfForest_mapSpans
    (f : Span → Span)
    (parent : Node) :
    ∀ children : List Node,
      framesOfForest (parent.mapSpans f)
          (children.map (Node.mapSpans f)) =
        (framesOfForest parent children).map (Frame.mapSpans f)
  | [] => by
      rfl
  | child :: rest => by
      rw [List.map_cons, framesOfForest, framesOfForest, List.map_append,
        ← framesOf_mapSpans f (some parent) child,
        framesOfForest_mapSpans f parent rest]
      rfl

end

/-- A whole tree with other spans is taken up in the same frames. -/
theorem framesOf_none_mapSpans
    (f : Span → Span)
    (tree : Node) :
    framesOf none (tree.mapSpans f) =
      (framesOf none tree).map (Frame.mapSpans f) :=
  framesOf_mapSpans f none tree

/-- Other spans leave kinds and children as they are. -/
theorem keepsShape_mapSpans
    (f : Span → Span) :
    Table.KeepsShape (Node.mapSpans f) where
  kind_eq := Node.kind_mapSpans f
  children_eq := Node.children_mapSpans f

section

variable (f : Span → Span) (tree : Node)

/-- With other spans the rules emit for the same nodes, with these spans. -/
theorem emissionsOf_mapSpans :
    emissionsOf (effectsOf Rule.effects (framesOf none (tree.mapSpans f))) =
      (emissionsOf (effectsOf Rule.effects (framesOf none tree))).map
        (Prod.map id (Node.mapSpans f)) := by
  rw [framesOf_none_mapSpans, emissionsOf_effectsOf, emissionsOf_effectsOf,
    List.flatMap_map, List.map_flatMap]
  congr 1
  funext frame
  exact Table.entries_map (keepsShape_mapSpans f) frame.parent frame.node

/-- With other spans the rules record the same mismatches, with these spans. -/
theorem mismatchesOf_mapSpans :
    mismatchesOf
        (effectsOf Rule.effects (framesOf none (tree.mapSpans f))) =
      (mismatchesOf (effectsOf Rule.effects (framesOf none tree))).map
        (ShapeMismatch.mapSpan f) := by
  rw [framesOf_none_mapSpans, mismatchesOf_effectsOf, mismatchesOf_effectsOf,
    List.flatMap_map, List.map_flatMap]
  congr 1
  funext frame
  change
    (Table.misnamed? (frame.node.mapSpans f)).toList.map misnaming = _
  rw [Table.misnamed?_map (keepsShape_mapSpans f)]
  cases Table.misnamed? frame.node with
  | none =>
      rfl
  | some found =>
      simp [misnaming, ShapeMismatch.mapSpan]

/-- With other spans the highlights are the same, with these spans. -/
theorem highlightsOf_mapSpans :
    highlightsOf
        (effectsOf Rule.effects (framesOf none (tree.mapSpans f))) =
      (highlightsOf (effectsOf Rule.effects (framesOf none tree))).map
        (Highlight.mapSpan f) := by
  rw [highlightsOf, emissionsOf_mapSpans, highlightsOf, List.map_map,
    List.map_map]
  apply List.map_congr_left
  intro emission _
  simp [highlightOf, Highlight.mapSpan]

/-- With other spans a tree is as large as before. -/
theorem size_mapSpans :
    (tree.mapSpans f).size = tree.size := by
  rw [← length_framesOf none, framesOf_none_mapSpans, List.length_map,
    length_framesOf]

end

/-! ## Passes -/

/-- A pass from nothing into a distinct collection adds each highlight once. -/
theorem toList_run_distinctHost
    (context : Context)
    (tree : Node) :
    (run (context.settings .collect) tree distinctHost).host.sink.toList =
      (highlightsOf
        (effectsOf Rule.effects (framesOf none tree))).eraseDups :=
  toList_sink_run_distinct
    (flagDown_settings (Flags.isRaised_clear _) .collect) tree

/-- Every highlight of a pass has the span of a node of the tree. -/
theorem spans_highlightsOf_subset
    (tree : Node) :
    (highlightsOf (effectsOf Rule.effects (framesOf none tree))).map
        (·.span) ⊆
      tree.spans := by
  intro span member
  obtain ⟨highlight, emitted, rfl⟩ := List.mem_map.mp member
  rw [highlightsOf_framesOf] at emitted
  obtain ⟨occurrence, reached, sameSpan⟩ :=
    Occurrence.exists_within_of_mem_highlights emitted
  rw [sameSpan]
  exact List.mem_map_of_mem reached.mem_preorder

/--
Classification sees shapes only, never offsets.

Whatever map is applied to the spans of a tree: a pass over the tree ends with the
same counters, and its highlights and its mismatches are the same in the same
order, with the map applied to their spans. When the whole tree is moved by a
distance at which it still fits, the distinct highlights, their resolved view and
their sorted view are moved as well, and the check of the tree comes out the same,
with the spans that it reports moved.
-/
theorem run_sees_shapes_only
    (tree : Node)
    (context : Context) :
    let settings := context.settings .collect
    (∀ f : Span → Span,
      let plain := run settings tree rawHost
      let changed := run settings (tree.mapSpans f) rawHost
      (∃ stats,
        plain.outcome = .finished stats ∧
          changed.outcome = .finished stats) ∧
      changed.host.sink.toList =
        plain.host.sink.toList.map (Highlight.mapSpan f) ∧
      changed.host.collected.toList =
        plain.host.collected.toList.map (ShapeMismatch.mapSpan f)) ∧
    ∀ distance : Int,
      (∀ node ∈ tree.preorder, node.span.FitsShift distance) →
      let moved := Highlight.mapSpan (Span.shift distance)
      let movedTree := tree.mapSpans (Span.shift distance)
      let plain := (run settings tree distinctHost).host.sink
      let changed := (run settings movedTree distinctHost).host.sink
      changed.toList = plain.toList.map moved ∧
      changed.resolved = plain.resolved.map moved ∧
      changed.sorted = plain.sorted.map moved ∧
      movedTree.validate =
        tree.validate.mapError
          (TreeFault.mapSpans (Span.shift distance)) := by
  intro settings
  constructor
  · intro f plain changed
    obtain ⟨ends, highlights, mismatches⟩ := run_rawHost context tree
    obtain ⟨changedEnds, changedHighlights, changedMismatches⟩ :=
      run_rawHost context (tree.mapSpans f)
    refine ⟨⟨_, ends, ?_⟩, ?_, ?_⟩
    · rw [show changed.outcome = _ from changedEnds, size_mapSpans,
        emissionsOf_mapSpans, mismatchesOf_mapSpans, List.length_map,
        List.length_map]
    · rw [changedHighlights, highlights, highlightsOf_mapSpans]
    · rw [changedMismatches, mismatches, mismatchesOf_mapSpans]
  · intro distance fits moved movedTree plain changed
    have keeps : Span.KeepsOrder (Span.shift distance) tree.spans := by
      apply Span.keepsOrder_shift
      intro span member
      obtain ⟨node, inTree, rfl⟩ := List.mem_map.mp member
      exact fits node inTree
    have holds : plain.toList = _ :=
      toList_run_distinctHost context tree
    have changedHolds : changed.toList = _ :=
      toList_run_distinctHost context movedTree
    rw [highlightsOf_mapSpans] at changedHolds
    obtain ⟨listed, resolved, sorted⟩ :=
      DistinctHighlights.views_mapSpan
        (keeps.mono (spans_highlightsOf_subset tree)) holds changedHolds
    exact ⟨listed, resolved, sorted, Node.validate_mapSpans keeps⟩

/-- A call that stops before its own arguments do. -/
def overrunCall : Node where
  kind := .postfixExpression
  span := .ofTested 0 2 (.refl true)
  children := [
    .leaf .identifier (.ofTested 0 1 (.refl true)),
    .leaf .callOperator (.ofTested 1 6 (.refl true))]

/-- Moved by four bytes, the call has its callee and its fault four bytes later. -/
theorem run_sees_shapes_only_overrunCall :
    let moved := overrunCall.mapSpans (Span.shift 4)
    (∀ node ∈ overrunCall.preorder, node.span.FitsShift 4) ∧
      (run (Context.settings ⟨0, false⟩ .collect) moved
        distinctHost).host.sink.toList =
          [⟨.ofTested 4 5 (.refl true), .functionIdentifier⟩] ∧
      moved.validate =
        .error (.childOutsideParent
          .postfixExpression (.ofTested 4 6 (.refl true))
          .callOperator (.ofTested 5 10 (.refl true))) := by
  intro moved
  have fits : ∀ node ∈ overrunCall.preorder, node.span.FitsShift 4 := by
    decide
  obtain ⟨_, commutes⟩ := run_sees_shapes_only overrunCall ⟨0, false⟩
  obtain ⟨listed, _, _, checked⟩ := commutes 4 fits
  refine ⟨fits, ?_, ?_⟩
  · rw [listed, toList_run_distinctHost]
    decide +kernel
  · rw [checked, Node.validate, Node.toList_descendants]
    decide +kernel

end Pass

end ShaderTint
