import ShaderTint.Proofs.Pass.Lineage
import ShaderTint.Proofs.Pass.Recording
import ShaderTint.Proofs.Tree.Bracketing

namespace ShaderTint

/-!
# How far rules reach

A rule looks at its own node, at children and grandchildren, and, for a call, at
the operand beside it. What it hands over always has the span of such a node.

Main statement: `Occurrence.run_invents_no_span` says this of every highlight and
every mismatch of every pass, whatever its receiver does and wherever it ends.
-/

/-- The spans that effects hand over, in highlights and in mismatches. -/
def spansOf
    (effects : List Effect) :
    List Span :=
  (highlightsOf effects).map (·.span) ++
    (mismatchesOf effects).map (·.span)

namespace Occurrence

/-- The nodes that the rule at a node may highlight or report. -/
inductive Reaches
    (source : Occurrence) :
    Occurrence → Prop where
  | self :
      Reaches source source
  | child
      {target : Occurrence} :
      target.parent? = some source →
      Reaches source target
  | grandchild
      {target : Occurrence} :
      target.grandparent? = some source →
      Reaches source target
  | operand
      {target : Occurrence} :
      source.node.kind = .callOperator →
      Siblings source target →
      target.isOperand →
      Reaches source target

/-! ## Rules reach what they highlight and report -/

section

variable {source target : Occurrence}

/-- Children have the occurrence as their parent. -/
theorem parent?_of_mem_children
    (isChild : target ∈ source.children) :
    target.parent? = some source := by
  obtain ⟨index, node, _, rfl⟩ := mem_children_iff.mp isChild
  exact parent?_child source index node

namespace Reaches

theorem of_mem_children
    (isChild : target ∈ source.children) :
    source.Reaches target :=
  .child (parent?_of_mem_children isChild)

theorem of_mem_grandchildren
    {middle : Occurrence}
    (isMiddle : middle ∈ source.children)
    (isChild : target ∈ middle.children) :
    source.Reaches target := by
  apply Reaches.grandchild
  rw [grandparent?, parent?_of_mem_children isChild]
  exact parent?_of_mem_children isMiddle

/-- Whatever a node reaches is at or below its parent, if it has one. -/
theorem at_or_below_parent
    (reaches : source.Reaches target) :
    (source.parent?.getD source).AtOrAbove target := by
  have fromSelf : (source.parent?.getD source).AtOrAbove source := by
    cases isParent : source.parent? with
    | none =>
        exact .refl source
    | some parent =>
        exact .of_parent isParent
  cases reaches with
  | self =>
      exact fromSelf
  | child isParent =>
      exact fromSelf.trans (.of_parent isParent)
  | grandchild isGrandparent =>
      exact fromSelf.trans (.of_grandparent isGrandparent)
  | operand _ siblings _ =>
      obtain ⟨_, parent, isParent, sameParent⟩ := siblings
      rw [isParent]
      exact .of_parent sameParent

end Reaches

/-- The rule at a node reaches what it highlights. -/
theorem reaches_of_entry
    {root : Node}
    {tag : Tag}
    (reached : Within root source)
    (entry : Table.Entry source.parent? source tag target) :
    source.Reaches target := by
  have targetReached := reached.of_entry entry
  cases entry.near with
  | self =>
      exact .self
  | child isChild =>
      exact .of_mem_children isChild
  | grandchild isMiddle isChild =>
      exact .of_mem_grandchildren isMiddle isChild
  | callee isCall isParent postfixed found =>
      obtain ⟨sameParent, leads, identifier⟩ :=
        (leadingIdentifier?_eq_some_iff targetReached.standing).mp found
      -- The operand is an identifier, so it is not the call itself.
      have different : source ≠ target := by
        rintro rfl
        cases isCall.symm.trans identifier
      refine .operand isCall ⟨different, _, isParent, sameParent⟩ ?_
      have isUnder : target.under .postfixExpression :=
        (under_iff_of_parent sameParent .postfixExpression).mpr postfixed
      simp [isOperand, identifier, isUnder, leads]

/-- What stands in the place of a function's name is a grandchild of the function. -/
theorem exists_middle_of_misnamed?
    (found : Table.misnamed? source = some target) :
    ∃ middle ∈ source.children, target ∈ middle.children := by
  obtain ⟨_, inHeader⟩ := Option.ite_none_right_eq_some.mp found
  obtain ⟨header, isHeader, afterType⟩ := Option.bind_eq_some_iff.mp inHeader
  have isNext := (Option.filter_eq_some_iff.mp afterType).1
  exact ⟨header, Table.mem_children_of_first? isHeader,
    Table.mem_children_of_mem_fromType (List.mem_of_getElem? isNext)⟩

/-- The rule at an occurrence records what stands in the place of a function's name. -/
theorem mismatchesOf_ruleEffects
    (occurrence : Occurrence) :
    mismatchesOf occurrence.ruleEffects =
      (Table.misnamed? occurrence).toList.map fun found =>
        misnaming found.node := by
  rw [ruleEffects, mismatchesOf_effects]
  change (Table.misnamed? occurrence.node).toList.map misnaming = _
  rw [Table.misnamed?_map keepsShape_node]
  cases Table.misnamed? occurrence <;> rfl

/-- Every span that the rule at a node hands over is that of a node that it reaches. -/
theorem exists_reaches_of_mem_spansOf
    {root : Node}
    {span : Span}
    (reached : Within root source)
    (member : span ∈ spansOf source.ruleEffects) :
    ∃ target,
      Within root target ∧
        source.Reaches target ∧ target.node.span = span := by
  rcases List.mem_append.mp member with highlighted | reported
  · rw [highlightsOf, emissionsOf_ruleEffects, List.map_map,
      List.map_map] at highlighted
    obtain ⟨⟨tag, target⟩, present, rfl⟩ := List.mem_map.mp highlighted
    have entry := Table.mem_entries_iff.mp present
    exact ⟨target, reached.of_entry entry,
      reaches_of_entry reached entry, rfl⟩
  · rw [mismatchesOf_ruleEffects, List.map_map] at reported
    obtain ⟨target, present, rfl⟩ := List.mem_map.mp reported
    obtain ⟨middle, isMiddle, isChild⟩ :=
      exists_middle_of_misnamed? (Option.mem_toList.mp present)
    have middleReached := reached.of_mem_children isMiddle
    exact ⟨target, middleReached.of_mem_children isChild,
      .of_mem_grandchildren isMiddle isChild, rfl⟩

end

/-! ## Passes hand over what the rules reach -/

/-- The first visits of a pass apply the rules at the first occurrences. -/
theorem effectsBefore_eq_flatMap
    (root : Node)
    (visits : Nat) :
    Pass.effectsBefore Rule.effects root visits =
      ((occurrences root).take visits).flatMap ruleEffects := by
  rw [Pass.effectsBefore, ← map_frame_occurrences, ← List.map_take,
    effectsOf_map_frame]

/--
No pass invents a span.

A record around the receiver changes nothing and shows what the receiver is
handed: for each node visited, in document order, the highlights that its rule
asks for; and for each of them the mismatches of its rule are reported. Every span
among these is that of a node which the visited one reaches, and which is at or
below the parent of the visited one. When the tree is an accepted one, each of
these spans lies within everything above the node it belongs to, hence within the
tree.
-/
theorem run_invents_no_span
    [Sink σ]
    (tree : Node)
    (context : Context)
    (reporting : Reporting)
    (host : Host σ) :
    let settings := context.settings reporting
    let result := Pass.run settings tree host
    let recorded := Pass.run settings tree host.recorded
    let visited := (occurrences tree).take result.outcome.visited
    let mismatches :=
      visited.flatMap fun source => mismatchesOf source.ruleEffects
    recorded.mapSink Recorded.sink = result ∧
      recorded.host.sink.received.toList =
        (visited.flatMap fun source => highlightsOf source.ruleEffects) ∧
      (reporting = .collect →
        result.host.collected.toList =
          host.collected.toList ++ mismatches) ∧
      (reporting = .log →
        result.log.toList.filterMap Event.mismatch? = mismatches) ∧
      ∀ source ∈ visited,
        ∀ span ∈ spansOf source.ruleEffects,
          ∃ target,
            target.node.span = span ∧
            Within tree target ∧
            source.Reaches target ∧
            (source.parent?.getD source).AtOrAbove target ∧
            (tree.Accepted →
              tree.span.Contains span ∧
                ∀ ancestor : Occurrence,
                  ancestor.AtOrAbove target →
                  ancestor.node.span.Contains span) := by
  intro settings result recorded visited mismatches
  have applied :
      Pass.effectsBefore settings.rules tree result.outcome.visited =
        visited.flatMap ruleEffects :=
    effectsBefore_eq_flatMap tree _
  have sameMismatches :
      mismatchesOf
          (Pass.effectsBefore settings.rules tree
            result.outcome.visited) =
        mismatches := by
    rw [applied, mismatchesOf_flatMap]
  obtain ⟨collected, logged⟩ := Pass.mismatches_run settings tree host
  refine ⟨Pass.run_recorded settings tree host, ?_, ?_, ?_, ?_⟩
  · calc
      recorded.host.sink.received.toList =
          highlightsOf
            (Pass.effectsBefore settings.rules tree
              result.outcome.visited) :=
        Pass.received_run_recorded settings tree host
      _ = visited.flatMap fun source =>
            highlightsOf source.ruleEffects := by
        rw [applied, highlightsOf_flatMap]
  · intro collects
    rw [← sameMismatches]
    exact collected collects
  · intro logs
    rw [← sameMismatches]
    exact logged logs
  · intro source isVisited span member
    have reached : Within tree source :=
      mem_occurrences_iff.mp (List.mem_of_mem_take isVisited)
    obtain ⟨target, targetReached, reaches, rfl⟩ :=
      exists_reaches_of_mem_spansOf reached member
    refine ⟨target, rfl, targetReached, reaches,
      reaches.at_or_below_parent, ?_⟩
    intro accepted
    refine ⟨(targetReached.contains accepted.nested).1, ?_⟩
    intro ancestor line
    exact line.contains accepted.nested targetReached

end Occurrence

end ShaderTint
