import ShaderTint.Proofs.Pass.Reach

namespace ShaderTint

/-!
# What a pass does inside a subtree

The nodes of a subtree are visited one right after the other, so what a pass hands
over for them is one segment of all that it hands over. The rules look down from a
node and not up, but for one: a call looks at the expression around it. So a
segment is what a pass over the subtree alone hands over, and in front of it, when
the subtree is a call, the name that is called.

Main statement: `Occurrence.subtree_is_segment`.
-/

namespace Occurrence

/-! ## The places of a subtree -/

/-- The places below a child stand together among those below its parent. -/
theorem exists_split_occurrencesBelow
    (parent : Node)
    (above : List (Node × Nat))
    {children : List Node}
    {index : Nat}
    {found : Node}
    (present : children[index]? = some found)
    (start : Nat) :
    ∃ before after,
      occurrencesBelow parent above start children =
        before ++ occurrencesAt ((parent, start + index) :: above) found ++
          after := by
  induction children generalizing start index with
  | nil =>
      simp at present
  | cons child rest inductionHypothesis =>
      rw [occurrencesBelow]
      cases index with
      | zero =>
          cases present
          exact ⟨[], _, rfl⟩
      | succ later =>
          obtain ⟨before, after, split⟩ :=
            inductionHypothesis present (start + 1)
          rw [Nat.add_right_comm, Nat.add_assoc] at split
          refine ⟨occurrencesAt ((parent, start) :: above) child ++ before,
            after, ?_⟩
          rw [split]
          simp only [List.append_assoc]

/-- The places of a subtree stand together in document order. -/
theorem exists_split_occurrences
    {root : Node}
    {place : Occurrence}
    (reached : Within root place) :
    ∃ before after,
      occurrences root =
        before ++ occurrencesAt place.above place.node ++ after := by
  induction reached with
  | ofRoot =>
      exact ⟨[], [], by simp [occurrences, Occurrence.ofRoot]⟩
  | @child parent index node _ present inductionHypothesis =>
      obtain ⟨before, after, split⟩ := inductionHypothesis
      obtain ⟨left, right, splitBelow⟩ :=
        exists_split_occurrencesBelow parent.node parent.above present 0
      have belowParent :
          occurrencesAt parent.above parent.node =
            parent ::
              occurrencesBelow parent.node parent.above 0
                parent.node.children := by
        obtain ⟨⟨kind, span, children⟩, above⟩ := parent
        rw [occurrencesAt]
      rw [Nat.zero_add] at splitBelow
      refine ⟨before ++ parent :: left, right ++ after, ?_⟩
      rw [split, belowParent, splitBelow]
      simp [Occurrence.child]

mutual

/-- The places of a subtree are at or below its root. -/
theorem atOrAbove_of_mem_occurrencesAt
    {above : List (Node × Nat)}
    {occurrence : Occurrence} :
    ∀ {node : Node},
      occurrence ∈ occurrencesAt above node →
      AtOrAbove { node := node, above := above } occurrence
  | ⟨kind, span, children⟩, member => by
      rw [occurrencesAt, List.mem_cons] at member
      rcases member with isRoot | below
      · exact isRoot ▸ .refl _
      · exact atOrAbove_of_mem_occurrencesBelow below

theorem atOrAbove_of_mem_occurrencesBelow
    {parent : Node}
    {above : List (Node × Nat)}
    {occurrence : Occurrence} :
    ∀ {start : Nat} {children : List Node},
      occurrence ∈ occurrencesBelow parent above start children →
      AtOrAbove { node := parent, above := above } occurrence
  | _, [], member => by
      simp [occurrencesBelow] at member
  | start, child :: rest, member => by
      rw [occurrencesBelow, List.mem_append] at member
      rcases member with inFirst | inRest
      · exact (AtOrAbove.of_parent rfl).trans
          (atOrAbove_of_mem_occurrencesAt inFirst)
      · exact atOrAbove_of_mem_occurrencesBelow inRest

end

/-- The places of a subtree are those of the tree at or below its root. -/
theorem mem_occurrencesAt_iff
    {root : Node}
    {place occurrence : Occurrence}
    (reached : Within root occurrence) :
    occurrence ∈ occurrencesAt place.above place.node ↔
      place.AtOrAbove occurrence := by
  constructor
  · exact atOrAbove_of_mem_occurrencesAt
  · intro line
    induction line with
    | refl =>
        exact self_mem_occurrencesAt place.above place.node
    | @tail middle lower _ isParent inductionHypothesis =>
        obtain ⟨index, shape⟩ := above_eq_cons_iff.mp isParent
        have present := reached.standing _ _ _ shape
        have listed :=
          child_mem_occurrencesAt present
            (inductionHypothesis (reached.parent isParent))
        have same : middle.child index lower.node = lower := by
          rw [Occurrence.child, ← shape]
        rwa [same] at listed

/-! ## The rule that looks up -/

/-- The identifier at the front of the postfix expression right above. -/
def calledName?
    (place : Occurrence) :
    Option Node :=
  match place.parent? with
  | none => none
  | some expression =>
      if expression.node.kind = .postfixExpression then
        expression.node.children.head?.filter (·.kind == .identifier)
      else
        none

/-- What a call highlights outside its own subtree. -/
def calleeAbove
    (place : Occurrence) :
    List Highlight :=
  if place.node.kind = .callOperator then
    place.calledName?.toList.map fun name =>
      { span := name.span, tag := .functionIdentifier }
  else
    []

/-- A call highlights the name at the front of the expression right above. -/
theorem call_eq_tagged
    (place : Occurrence) :
    Table.call (place.parent?.map Occurrence.node) =
      Table.tagged .functionIdentifier place.calledName? := by
  unfold calledName?
  cases place.parent? with
  | none =>
      rfl
  | some expression =>
      simp only [Option.map_some, Table.call, Shaped.kind]
      split
      · rw [Table.leadingIdentifier?]
        cases shape : expression.node.children with
        | nil =>
            simp [Shaped.children, shape]
        | cons operand rest =>
            by_cases identifier : operand.kind = .identifier <;>
              simp [Shaped.children, Shaped.kind, shape, identifier,
                Option.filter]
      · rfl

/-- A rule highlights what it does without its surroundings, after the name of a call. -/
theorem highlightsOf_effects_under
    (place : Occurrence) :
    highlightsOf
        (Rule.effects (place.parent?.map Occurrence.node) place.node) =
      place.calleeAbove ++ highlightsOf (Rule.effects none place.node) := by
  rw [highlightsOf, highlightsOf, emissionsOf_effects, emissionsOf_effects]
  unfold calleeAbove Table.entries
  simp only [Shaped.kind, call_eq_tagged]
  cases place.node.kind with
  | callOperator =>
      cases place.calledName? <;>
        rfl
  | _ =>
      rfl

/-- The effects at the places of a subtree are those of its frames in a pass. -/
theorem flatMap_ruleEffects_occurrencesAt
    (place : Occurrence) :
    (occurrencesAt place.above place.node).flatMap ruleEffects =
      Pass.effectsOf Rule.effects
        (Pass.framesOf (place.parent?.map Occurrence.node) place.node) := by
  have sameParent :
      place.above.head?.map Prod.fst =
        place.parent?.map Occurrence.node := by
    unfold parent?
    cases place.above <;> rfl
  rw [← effectsOf_map_frame, map_frame_occurrencesAt, sameParent]

/-- In its tree a subtree is highlighted as alone, after the name of a call. -/
theorem highlightsOf_subtree
    (place : Occurrence) :
    highlightsOf
        ((occurrencesAt place.above place.node).flatMap ruleEffects) =
      place.calleeAbove ++
        highlightsOf
          (Pass.effectsOf Rule.effects (Pass.framesOf none place.node)) := by
  rw [flatMap_ruleEffects_occurrencesAt, Pass.framesOf_eq,
    Pass.framesOf_eq none]
  simp only [Pass.effectsOf, List.flatMap_cons, highlightsOf_append,
    highlightsOf_effects_under, List.append_assoc]

/-- In its tree a subtree has the mismatches that it has alone. -/
theorem mismatchesOf_subtree
    (place : Occurrence) :
    mismatchesOf
        ((occurrencesAt place.above place.node).flatMap ruleEffects) =
      mismatchesOf
        (Pass.effectsOf Rule.effects (Pass.framesOf none place.node)) := by
  rw [flatMap_ruleEffects_occurrencesAt, Pass.framesOf_eq,
    Pass.framesOf_eq none]
  simp only [Pass.effectsOf, List.flatMap_cons, mismatchesOf_append,
    mismatchesOf_effects]

/-! ## A subtree in a pass -/

/-- The visits between two numbers are those of a subtree. -/
structure VisitsOf
    (place : Occurrence)
    (tree : Node)
    (first last : Nat) :
    Prop where
  last_eq : last = first + place.node.size
  last_le : last ≤ tree.size
  below_iff :
    ∀ visit occurrence,
      (occurrences tree)[visit]? = some occurrence →
      (place.AtOrAbove occurrence ↔ first ≤ visit ∧ visit < last)

/-- Places that stand together in document order are visited one after the other. -/
theorem visitsOf_of_split
    {tree : Node}
    {place : Occurrence}
    {before after : List Occurrence}
    (split :
      occurrences tree =
        before ++ (occurrencesAt place.above place.node ++ after)) :
    VisitsOf place tree before.length
      (before.length + place.node.size) where
  last_eq := rfl
  last_le := by
    have counted := congrArg List.length split
    rw [occurrences, length_occurrencesAt, List.length_append,
      List.length_append, length_occurrencesAt] at counted
    omega
  below_iff := by
    intro visit occurrence found
    have reached : Within tree occurrence :=
      mem_occurrences_iff.mp (List.mem_of_getElem? found)
    -- No place is listed twice, so those of the subtree are listed in it only.
    have once := nodup_occurrences tree
    rw [split, List.nodup_append] at once
    obtain ⟨_, onceBehind, apartBefore⟩ := once
    obtain ⟨_, _, apartAfter⟩ := List.nodup_append.mp onceBehind
    rw [← mem_occurrencesAt_iff reached]
    rw [split] at found
    by_cases early : visit < before.length
    · rw [List.getElem?_append_left early] at found
      have inBefore := List.mem_of_getElem? found
      constructor
      · intro inside
        exact absurd rfl
          (apartBefore _ inBefore _ (List.mem_append_left _ inside))
      · intro within
        omega
    · rw [List.getElem?_append_right (by omega)] at found
      by_cases late : before.length + place.node.size ≤ visit
      · rw [List.getElem?_append_right
          (by rw [length_occurrencesAt]; omega)] at found
        have inAfter := List.mem_of_getElem? found
        constructor
        · intro inside
          exact absurd rfl (apartAfter _ inside _ inAfter)
        · intro within
          omega
      · rw [List.getElem?_append_left
          (by rw [length_occurrencesAt]; omega)] at found
        constructor
        · intro _
          omega
        · intro _
          exact List.mem_of_getElem? found

/-- Places that stand together add their effects to those of the places before. -/
theorem effectsBefore_of_split
    {tree : Node}
    {place : Occurrence}
    {before after : List Occurrence}
    (split :
      occurrences tree =
        before ++ (occurrencesAt place.above place.node ++ after)) :
    let effects := Pass.effectsBefore Rule.effects tree
    let last := before.length + place.node.size
    effects last =
        effects before.length ++
          (occurrencesAt place.above place.node).flatMap ruleEffects ∧
      effects tree.size = effects last ++ after.flatMap ruleEffects := by
  intro effects last
  have takeFirst : (occurrences tree).take before.length = before := by
    rw [split, List.take_left]
  have takeLast :
      (occurrences tree).take (before.length + place.node.size) =
        before ++ occurrencesAt place.above place.node := by
    rw [split, ← List.append_assoc, ← length_occurrencesAt place.above,
      ← List.length_append, List.take_left]
  have takeAll :
      (occurrences tree).take tree.size =
        before ++ occurrencesAt place.above place.node ++ after := by
    rw [List.append_assoc, ← split, ← length_occurrencesAt [] tree]
    exact List.take_length
  simp only [effects, last, effectsBefore_eq_flatMap, takeFirst, takeLast,
    takeAll, List.flatMap_append, and_self]

/-- What a pass from nothing has handed over after some visits. -/
theorem standing_rawHost
    (context : Context)
    {tree : Node}
    {visits : Nat}
    (enough : visits ≤ tree.size) :
    let state :=
      Pass.standing (context.settings .collect) tree Pass.rawHost visits
    let effects := Pass.effectsBefore Rule.effects tree visits
    state.host.sink.toList = highlightsOf effects ∧
      state.host.collected.toList = mismatchesOf effects := by
  intro state effects
  have stands : state = _ :=
    Pass.standing_eq_after _ tree Pass.rawHost enough
  rw [stands]
  refine ⟨Sink.toList_addAll_array _ _ _, ?_⟩
  simp [Pass.Progress.after, Pass.Progress.start, Context.settings,
    Pass.rawHost, effects]

/--
A pass does in a subtree what it does with the subtree alone.

The pass takes up the places of the tree in document order, and those at or below
the given place one after the other. Between the first and the last of these
visits the receiver and the diagnostics get what a pass over the subtree alone
hands them; only the receiver of a call's subtree gets the name that is called
before it, if the expression right above starts with one. All that the pass hands
over afterwards comes behind.
-/
theorem subtree_is_segment
    (tree : Node)
    (context : Context)
    (place : Occurrence)
    (reached : Within tree place) :
    let settings := context.settings .collect
    let state := Pass.standing settings tree Pass.rawHost
    let whole := Pass.run settings tree Pass.rawHost
    let alone := Pass.run settings place.node Pass.rawHost
    ∃ first last,
      VisitsOf place tree first last ∧
      Pass.trail settings [{ node := tree, parent := none }]
          (Pass.Progress.start Pass.rawHost) =
        (occurrences tree).map frame ∧
      (state last).host.sink.toList =
        (state first).host.sink.toList ++
          (place.calleeAbove ++ alone.host.sink.toList) ∧
      (state last).host.collected.toList =
        (state first).host.collected.toList ++
          alone.host.collected.toList ∧
      whole.outcome = .finished (state tree.size).stats ∧
      (state last).host.sink.toList <+: whole.host.sink.toList ∧
      (state last).host.collected.toList <+:
        whole.host.collected.toList := by
  intro settings state whole alone
  obtain ⟨before, after, split⟩ := exists_split_occurrences reached
  rw [List.append_assoc] at split
  have visits := visitsOf_of_split split
  have begun : before.length ≤ tree.size :=
    Nat.le_trans (Nat.le_add_right _ _) visits.last_le
  have flagDown : Pass.FlagDown settings Pass.rawHost.flags :=
    Pass.flagDown_settings (Flags.isRaised_clear _) .collect
  have ended : whole = _ :=
    Pass.run_eq_standing_of_quiet tree Pass.rawHost flagDown
  obtain ⟨throughSubtree, throughTree⟩ := effectsBefore_of_split split
  obtain ⟨sinkFirst, collectedFirst⟩ := standing_rawHost context begun
  obtain ⟨sinkLast, collectedLast⟩ :=
    standing_rawHost context visits.last_le
  obtain ⟨sinkEnd, collectedEnd⟩ :=
    standing_rawHost context (Nat.le_refl tree.size)
  obtain ⟨_, sinkAlone, collectedAlone⟩ :=
    Pass.run_rawHost context place.node
  refine ⟨before.length, before.length + place.node.size, visits,
    ?_, ?_, ?_, ?_, ?_, ?_⟩
  · rw [map_frame_occurrences]
    exact Pass.trail_of_quiet tree flagDown
  · rw [sinkLast, sinkFirst, sinkAlone, throughSubtree,
      highlightsOf_append, highlightsOf_subtree]
  · rw [collectedLast, collectedFirst, collectedAlone, throughSubtree,
      mismatchesOf_append, mismatchesOf_subtree]
  · rw [ended]
  · rw [ended, sinkEnd, sinkLast, throughTree, highlightsOf_append]
    exact List.prefix_append _ _
  · rw [ended, collectedEnd, collectedLast, throughTree,
      mismatchesOf_append]
    exact List.prefix_append _ _

/-- The arguments of the call `f(int)`. -/
def typeArguments : Node where
  kind := .callOperator
  span := .ofTested 1 6 (.refl true)
  children := [.leaf .builtInType (.ofTested 2 5 (.refl true))]

/-- The call `f(int)`, over bytes 0 to 6. -/
def typeCall : Node where
  kind := .postfixExpression
  span := .ofTested 0 6 (.refl true)
  children := [
    .leaf .identifier (.ofTested 0 1 (.refl true)), typeArguments]

/-- In `f(int)` the arguments are highlighted with `f` in front of `int`. -/
theorem subtree_is_segment_typeCall :
    let place := (Occurrence.ofRoot typeCall).child 1 typeArguments
    let state :=
      Pass.standing (Context.settings ⟨0, false⟩ .collect) typeCall
        Pass.rawHost
    Within typeCall place ∧
      ∃ first last,
        VisitsOf place typeCall first last ∧
        (state last).host.sink.toList =
          (state first).host.sink.toList ++ [
            ⟨.ofTested 0 1 (.refl true), .functionIdentifier⟩,
            ⟨.ofTested 2 5 (.refl true), .keyword⟩] := by
  intro place state
  have reached : Within typeCall place :=
    .child .ofRoot rfl
  obtain ⟨first, last, visits, _, appended, _⟩ :=
    subtree_is_segment typeCall ⟨0, false⟩ place reached
  obtain ⟨_, sinkAlone, _⟩ := Pass.run_rawHost ⟨0, false⟩ typeArguments
  refine ⟨reached, first, last, visits, ?_⟩
  rw [appended, show place.node = typeArguments from rfl, sinkAlone]
  rfl

end Occurrence

end ShaderTint
