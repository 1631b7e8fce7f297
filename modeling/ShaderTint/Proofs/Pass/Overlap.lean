import ShaderTint.Proofs.Pass.Misnaming

namespace ShaderTint

/-!
# Calls are highlighted twice

The rule of a postfix expression and the rule of a call look at one and the same shape
from two nodes. Whatever the expression highlights, its first operator is a call and
highlights it again, later in the pass. So the rule of the expression is of no use to a
receiver that keeps each highlight once.

Main statement: `Occurrence.postfix_rule_is_redundant`.
-/

/-- The rules of Cg without the one for postfix expressions. -/
def Rule.withoutPostfix : RuleTable := fun parent node =>
  if node.kind = .postfixExpression then
    []
  else
    Rule.effects parent node

namespace Occurrence

/-- A call that is the first operator of an expression highlights just what the expression does. -/
theorem highlightsOf_firstCall
    {expression call : Occurrence}
    (postfixed : expression.node.kind = .postfixExpression)
    (isFirst :
      Table.first? Kind.isPostfixOperator expression = some call)
    (isCall : call.node.kind = .callOperator) :
    highlightsOf call.ruleEffects = highlightsOf expression.ruleEffects := by
  have isParent : call.parent? = some expression :=
    parent?_of_mem_children (Table.mem_children_of_first? isFirst)
  have sameEntries :
      Table.entries call.parent? call =
        Table.entries expression.parent? expression := by
    simp [Table.entries, Table.call, Shaped.kind, postfixed, isFirst, isCall,
      isParent]
  rw [highlightsOf, highlightsOf, emissionsOf_ruleEffects,
    emissionsOf_ruleEffects, sameEntries]

/-- What a postfix expression highlights: its leading identifier, before a call. -/
theorem highlightsOf_expression
    {expression : Occurrence}
    (postfixed : expression.node.kind = .postfixExpression) :
    highlightsOf expression.ruleEffects =
      if (Table.first? Kind.isPostfixOperator expression).map Shaped.kind =
          some .callOperator then
        (Table.leadingIdentifier? expression).toList.map fun callee =>
          { span := callee.node.span, tag := .functionIdentifier }
      else
        [] := by
  rw [highlightsOf, emissionsOf_ruleEffects, Table.entries,
    show Shaped.kind expression = _ from postfixed]
  dsimp only
  split
  · cases Table.leadingIdentifier? expression <;> rfl
  · rfl

/-- The first operator of an expression that highlights something is a call and does so too. -/
theorem exists_firstCall_of_mem
    {expression : Occurrence}
    {highlight : Highlight}
    (postfixed : expression.node.kind = .postfixExpression)
    (emitted : highlight ∈ highlightsOf expression.ruleEffects) :
    highlight.tag = .functionIdentifier ∧
      ∃ call,
        FirstIn expression.children
            (fun child => child.node.kind.isPostfixOperator) call ∧
          call.node.kind = .callOperator ∧
          highlightsOf call.ruleEffects = [highlight] := by
  have listed := highlightsOf_expression postfixed
  split at listed
  · next calls =>
      obtain ⟨call, isFirst, isCall⟩ := Option.map_eq_some_iff.mp calls
      have again := highlightsOf_firstCall postfixed isFirst isCall
      cases leading : Table.leadingIdentifier? expression with
      | none =>
          simp [listed, leading] at emitted
      | some callee =>
          have only :
              highlightsOf expression.ruleEffects =
                [{ span := callee.node.span, tag := .functionIdentifier }] := by
            simp [listed, leading]
          rw [only, List.mem_singleton] at emitted
          subst highlight
          exact ⟨rfl, call, first?_eq_some_iff_firstIn.mp isFirst, isCall,
            again.trans only⟩
  · simp [listed] at emitted

/-- A node comes after its parent in document order. -/
theorem exists_split_of_parent
    {tree : Node}
    {parent child : Occurrence}
    (reached : Within tree parent)
    (isChild : child ∈ parent.children) :
    ∃ before between after,
      occurrences tree = before ++ parent :: (between ++ child :: after) := by
  obtain ⟨before, behind, split⟩ :=
    List.append_of_mem (mem_occurrences_iff.mpr reached)
  have listed : child ∈ occurrences tree :=
    mem_occurrences_iff.mpr (reached.of_mem_children isChild)
  have isParent := parent?_of_mem_children isChild
  have ordered := occurrences_ordered tree
  rw [split, List.mem_append, List.mem_cons] at listed
  rw [split, List.pairwise_append] at ordered
  rcases listed with early | same | late
  · exact absurd (AtOrAbove.of_parent isParent)
      (ordered.2.2 child early parent List.mem_cons_self)
  · rw [same] at isParent
    exact absurd isParent (parent?_ne_self parent)
  · obtain ⟨between, after, splitBehind⟩ := List.append_of_mem late
    exact ⟨before, between, after, by rw [split, splitBehind]⟩

/-- What two of a tree's places hand over is handed over at least twice. -/
theorem two_le_count_of_split
    {places before between after : List Occurrence}
    {first second : Occurrence}
    {handed : Occurrence → List Highlight}
    {highlight : Highlight}
    (split : places = before ++ first :: (between ++ second :: after))
    (byFirst : highlight ∈ handed first)
    (bySecond : highlight ∈ handed second) :
    2 ≤ (places.flatMap handed).count highlight := by
  have once := List.count_pos_iff.mpr byFirst
  have again := List.count_pos_iff.mpr bySecond
  rw [split]
  simp only [List.flatMap_append, List.flatMap_cons, List.count_append]
  omega

/-- What the remaining rules highlight is what all rules highlight. -/
theorem mem_highlightsOf_withoutPostfix_iff
    {tree : Node}
    {highlight : Highlight} :
    highlight ∈
        highlightsOf
          (Pass.effectsOf Rule.withoutPostfix (Pass.framesOf none tree)) ↔
      highlight ∈
        highlightsOf
          (Pass.effectsOf Rule.effects (Pass.framesOf none tree)) := by
  simp only [Pass.effectsOf, highlightsOf_flatMap, ← map_frame_occurrences,
    List.flatMap_map, List.mem_flatMap]
  constructor
  · rintro ⟨place, listed, emitted⟩
    refine ⟨place, listed, ?_⟩
    unfold Rule.withoutPostfix at emitted
    split at emitted
    · simp [highlightsOf] at emitted
    · exact emitted
  · rintro ⟨place, listed, emitted⟩
    by_cases postfixed : place.node.kind = .postfixExpression
    · obtain ⟨_, call, ⟨_, before, after, split, _⟩, isCall, again⟩ :=
        exists_firstCall_of_mem postfixed emitted
      have reached : Within tree call :=
        (mem_occurrences_iff.mp listed).of_mem_children (by simp [split])
      have kept : ¬call.frame.node.kind = .postfixExpression := by
        rw [show call.frame.node.kind = _ from isCall]
        decide
      refine ⟨call, mem_occurrences_iff.mpr reached, ?_⟩
      rw [Rule.withoutPostfix, if_neg kept]
      exact again ▸ List.mem_singleton_self highlight
    · have kept : ¬place.frame.node.kind = .postfixExpression := postfixed
      refine ⟨place, listed, ?_⟩
      rw [Rule.withoutPostfix, if_neg kept]
      exact emitted

/--
Whatever the rule of a postfix expression highlights, the rule of a call highlights again.

A pass takes up the places of a tree in document order and hands over what the rule at
each of them highlights. A highlight from a postfix expression tags a function. The
first operator of the expression is a call, comes later, and hands over this highlight
and no other; so the highlight is handed over at least twice. Without the rule of
postfix expressions a distinct collection ends up with the same members.
-/
theorem postfix_rule_is_redundant
    (tree : Node)
    (context : Context) :
    let settings := context.settings .collect
    let reduced := { settings with rules := Rule.withoutPostfix }
    let raw := (Pass.run settings tree Pass.rawHost).host.sink.toList
    let all := Pass.run settings tree Pass.distinctHost
    let fewer := Pass.run reduced tree Pass.distinctHost
    Pass.trail settings [{ node := tree, parent := none }]
          (Pass.Progress.start Pass.rawHost) =
        (occurrences tree).map frame ∧
      raw =
        ((occurrences tree).flatMap fun place =>
          highlightsOf place.ruleEffects) ∧
      (∀ expression highlight,
        Within tree expression →
        expression.node.kind = .postfixExpression →
        highlight ∈ highlightsOf expression.ruleEffects →
        highlight.tag = .functionIdentifier ∧
          (∃ call before between after,
            occurrences tree =
                before ++ expression :: (between ++ call :: after) ∧
              FirstIn expression.children
                (fun child => child.node.kind.isPostfixOperator) call ∧
              call.node.kind = .callOperator ∧
              highlightsOf call.ruleEffects = [highlight]) ∧
          2 ≤ raw.count highlight) ∧
      (∃ stats, all.outcome = .finished stats) ∧
      (∃ stats, fewer.outcome = .finished stats) ∧
      ∀ highlight,
        fewer.host.sink.contains highlight =
          all.host.sink.contains highlight := by
  intro settings reduced raw all fewer
  have flagDown : Pass.FlagDown settings Flags.clear :=
    Pass.flagDown_settings (Flags.isRaised_clear _) .collect
  have reducedFlagDown : Pass.FlagDown reduced Flags.clear := flagDown
  have handed :
      raw =
        (occurrences tree).flatMap fun place =>
          highlightsOf place.ruleEffects := by
    obtain ⟨_, highlights, _⟩ := Pass.run_rawHost context tree
    rw [show raw = _ from highlights, effectsOf_framesOf,
      highlightsOf_flatMap]
  refine ⟨?_, handed, ?_, ?_, ?_, ?_⟩
  · rw [map_frame_occurrences]
    exact Pass.trail_of_quiet tree flagDown
  · intro expression highlight reached postfixed emitted
    obtain ⟨isFunction, call, isFirst, isCall, again⟩ :=
      exists_firstCall_of_mem postfixed emitted
    have isChild : call ∈ expression.children := by
      obtain ⟨_, before, after, split, _⟩ := isFirst
      simp [split]
    obtain ⟨before, between, after, split⟩ :=
      exists_split_of_parent reached isChild
    refine ⟨isFunction,
      ⟨call, before, between, after, split, isFirst, isCall, again⟩, ?_⟩
    rw [handed]
    exact two_le_count_of_split split emitted
      (again ▸ List.mem_singleton_self highlight)
  · exact ⟨_, congrArg Pass.Result.outcome
      (Pass.run_of_quiet tree Pass.distinctHost flagDown)⟩
  · exact ⟨_, congrArg Pass.Result.outcome
      (Pass.run_of_quiet tree Pass.distinctHost reducedFlagDown)⟩
  · intro highlight
    have ofAll : all.host.sink.toList = _ :=
      Pass.toList_sink_run_distinct flagDown tree
    have ofFewer : fewer.host.sink.toList = _ :=
      Pass.toList_sink_run_distinct reducedFlagDown tree
    rw [Bool.eq_iff_iff, DistinctHighlights.contains_iff,
      DistinctHighlights.contains_iff, ofAll, ofFewer]
    simp only [List.mem_eraseDups, List.mem_append]
    exact or_congr_right mem_highlightsOf_withoutPostfix_iff

end Occurrence

end ShaderTint
