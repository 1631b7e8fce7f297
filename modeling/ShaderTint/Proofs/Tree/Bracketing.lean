import ShaderTint.Proofs.Tree.Nesting
import ShaderTint.Tree.Builder

namespace ShaderTint

/-!
# Building steps and the trees they spell

A tree is spelled by the steps that enter its nodes and leave them again, in
document order. A builder that has met no fault holds exactly what its steps
have spelled so far: the completed tree, then the open nodes from the outside in,
each with its children.

Main statement: `Builder.finish_eq_ok_iff` says that building succeeds with a tree
just on the steps that spell the tree, and only for well-nested trees.
-/

namespace Node

mutual

/-- The steps that enter a node, spell its children and leave it. -/
def bracketing : Node → List BuildStep
  | ⟨kind, span, children⟩ =>
      .enter kind span.bounds ::
        (bracketingOfForest children ++ [.leave])

/-- The steps that spell several trees. -/
def bracketingOfForest : List Node → List BuildStep
  | [] => []
  | node :: rest => node.bracketing ++ bracketingOfForest rest

end

theorem bracketing_eq
    (node : Node) :
    node.bracketing =
      .enter node.kind node.span.bounds ::
        (bracketingOfForest node.children ++ [.leave]) := by
  cases node
  simp [bracketing]

theorem bracketingOfForest_append
    (first second : List Node) :
    bracketingOfForest (first ++ second) =
      bracketingOfForest first ++ bracketingOfForest second := by
  induction first with
  | nil =>
      rfl
  | cons node rest inductionHypothesis =>
      simp [bracketingOfForest, inductionHypothesis]

end Node

namespace BuildStep

/-- A leaf is entered and left at once. -/
def spelled : BuildStep → List BuildStep
  | .enter kind bounds => [.enter kind bounds]
  | .leaf kind bounds => [.enter kind bounds, .leave]
  | .leave => [.leave]

/-- The bounds that a step brings are in order. -/
def Ordered : BuildStep → Prop
  | .enter _ bounds => bounds.start ≤ bounds.stop
  | .leaf _ bounds => bounds.start ≤ bounds.stop
  | .leave => True

/-- Steps with every leaf entered and left at once. -/
def spellOut
    (steps : List BuildStep) :
    List BuildStep :=
  steps.flatMap spelled

/-- A step that is not a leaf. -/
def Bracket : BuildStep → Prop
  | .leaf _ _ => False
  | _ => True

theorem bracket_of_mem_spellOut
    {steps : List BuildStep}
    {step : BuildStep}
    (member : step ∈ spellOut steps) :
    step.Bracket := by
  obtain ⟨source, _, spelt⟩ := List.mem_flatMap.mp member
  cases source <;>
    simp only [spelled, List.mem_cons, List.not_mem_nil, or_false] at spelt
  · subst step
    trivial
  · rcases spelt with rfl | rfl <;> trivial
  · subst step
    trivial

/-- Spelling leaves out keeps bounds as they are. -/
theorem ordered_of_spellOut
    {steps : List BuildStep}
    (ordered : ∀ step ∈ spellOut steps, step.Ordered) :
    ∀ step ∈ steps, step.Ordered := by
  intro step member
  cases step with
  | enter kind bounds =>
      exact ordered (.enter kind bounds)
        (List.mem_flatMap.mpr ⟨_, member, by simp [spelled]⟩)
  | leaf kind bounds =>
      exact ordered (.enter kind bounds)
        (List.mem_flatMap.mpr ⟨_, member, by simp [spelled]⟩)
  | leave =>
      trivial

end BuildStep

namespace Node

open BuildStep

mutual

/-- The bounds that the steps of a tree bring are in order. -/
theorem ordered_of_mem_bracketing
    {step : BuildStep} :
    (node : Node) →
      step ∈ node.bracketing →
        step.Ordered
  | ⟨kind, span, children⟩, member => by
      simp only [bracketing, List.mem_cons, List.mem_append, List.not_mem_nil,
        or_false] at member
      rcases member with isEnter | below | isLeave
      · subst step
        exact span.start_le_stop
      · exact ordered_of_mem_bracketingOfForest children below
      · subst step
        trivial

theorem ordered_of_mem_bracketingOfForest
    {step : BuildStep} :
    (forest : List Node) →
      step ∈ bracketingOfForest forest →
        step.Ordered
  | [], member => by
      simp [bracketingOfForest] at member
  | node :: rest, member => by
      rcases List.mem_append.mp member with inNode | inRest
      · exact ordered_of_mem_bracketing node inNode
      · exact ordered_of_mem_bracketingOfForest rest inRest

end

end Node

namespace Builder

open Node BuildStep

/-- A leaf is built as a node that is entered and left at once. -/
theorem step_leaf
    (builder : Builder)
    (kind : Kind)
    (bounds : Bounds) :
    builder.step (.leaf kind bounds) =
      (builder.step (.enter kind bounds)).step .leave :=
  rfl

/-- Spelling leaves out does not change what is built. -/
theorem foldl_spellOut
    (builder : Builder)
    (steps : List BuildStep) :
    (spellOut steps).foldl step builder = steps.foldl step builder := by
  induction steps generalizing builder with
  | nil =>
      rfl
  | cons first rest inductionHypothesis =>
      have spelledFirst :
          (spelled first).foldl step builder = builder.step first := by
        cases first <;> rfl
      calc
        (spellOut (first :: rest)).foldl step builder
            = (spellOut rest).foldl step
                ((spelled first).foldl step builder) := by
          simp [spellOut]
        _ = rest.foldl step (builder.step first) := by
          rw [spelledFirst, inductionHypothesis]

/-! What a step does when it leaves no fault behind. -/

/-- Failing always leaves a fault. -/
theorem fault_fail_ne_none
    (builder : Builder)
    (fault : TreeFault) :
    (builder.fail fault).fault ≠ none := by
  cases remembered : builder.fault <;>
    simp [fail, remembered]

/-- A healthy entry found its bounds in order. -/
theorem enter_of_healthy
    {builder : Builder}
    {kind : Kind}
    {bounds : Bounds}
    (healthy : (builder.enter kind bounds).fault = none) :
    builder.fault = none ∧
      ∃ span : Span,
        span.bounds = bounds ∧
          builder.enter kind bounds =
            { builder with opened := ⟨kind, span, #[]⟩ :: builder.opened } := by
  by_cases ordered : bounds.start ≤ bounds.stop
  · let span : Span := ⟨bounds.start, bounds.stop, ordered, bounds.stop_lt⟩
    have found : Span.ofBounds? bounds = some span := by
      simp [Span.ofBounds?, ordered, span]
    have entered :
        builder.enter kind bounds =
          { builder with opened := ⟨kind, span, #[]⟩ :: builder.opened } := by
      simp [enter, spanFor, found]
    rw [entered] at healthy
    exact ⟨healthy, span, rfl, entered⟩
  · have failed :
        (builder.enter kind bounds).fault =
          (builder.fail (.invertedRange kind bounds)).fault := by
      simp [enter, spanFor, Span.ofBounds?, ordered]
    rw [failed] at healthy
    exact absurd healthy (fault_fail_ne_none _ _)

/-- A healthy attachment gives a node to a parent around it or makes it the root. -/
theorem attach_of_healthy
    {opened : List OpenNode}
    {root : Option Node}
    {fault : Option TreeFault}
    {node : Node}
    (healthy : (attach ⟨opened, root, fault⟩ node).fault = none) :
    fault = none ∧
      ((opened = [] ∧ root = none ∧
          attach ⟨opened, root, fault⟩ node = ⟨[], some node, fault⟩) ∨
        ∃ parent outer,
          opened = parent :: outer ∧
            parent.span.Contains node.span ∧
              attach ⟨opened, root, fault⟩ node =
                ⟨{ parent with children := parent.children.push node } :: outer,
                  root, fault⟩) := by
  cases opened with
  | nil =>
      cases root with
      | none =>
          exact ⟨healthy, .inl ⟨rfl, rfl, rfl⟩⟩
      | some earlier =>
          exact absurd healthy (fault_fail_ne_none _ _)
  | cons parent outer =>
      by_cases inside : parent.span.Contains node.span
      · have attached :
            attach ⟨parent :: outer, root, fault⟩ node =
              ⟨{ parent with children := parent.children.push node } :: outer,
                root, fault⟩ := by
          simp [attach, inside]
        rw [attached] at healthy
        exact ⟨healthy, .inr ⟨parent, outer, rfl, inside, attached⟩⟩
      · simp only [attach, inside, if_false] at healthy
        exact absurd healthy (fault_fail_ne_none _ _)

/-- A healthy departure closes the innermost open node. -/
theorem leave_of_healthy
    {opened : List OpenNode}
    {root : Option Node}
    {fault : Option TreeFault}
    (healthy : (leave ⟨opened, root, fault⟩).fault = none) :
    ∃ innermost outer,
      opened = innermost :: outer ∧
        leave ⟨opened, root, fault⟩ =
          attach ⟨outer, root, fault⟩ innermost.close := by
  cases opened with
  | nil =>
      exact absurd healthy (fault_fail_ne_none _ _)
  | cons innermost outer =>
      exact ⟨innermost, outer, rfl, rfl⟩

/-- A fault is never forgotten by a step. -/
theorem healthy_of_step
    {builder : Builder}
    {taken : BuildStep}
    (healthy : (builder.step taken).fault = none) :
    builder.fault = none := by
  have beforeLeave :
      ∀ {earlier : Builder}, earlier.leave.fault = none → earlier.fault = none := by
    rintro ⟨opened, root, fault⟩ left
    obtain ⟨innermost, outer, _, closed⟩ := leave_of_healthy left
    rw [closed] at left
    exact (attach_of_healthy left).1
  cases taken with
  | enter kind bounds =>
      exact (enter_of_healthy healthy).1
  | leaf kind bounds =>
      rw [step_leaf] at healthy
      exact (enter_of_healthy (beforeLeave healthy)).1
  | leave =>
      exact beforeLeave healthy

/-- A fault is never forgotten. -/
theorem healthy_of_foldl
    {builder : Builder}
    {steps : List BuildStep}
    (healthy : (steps.foldl step builder).fault = none) :
    builder.fault = none := by
  induction steps generalizing builder with
  | nil =>
      exact healthy
  | cons first rest inductionHypothesis =>
      exact healthy_of_step (inductionHypothesis healthy)

/-! What a builder without a fault has read so far. -/

/-- The steps that led to the open nodes, innermost node first. -/
def openSteps : List OpenNode → List BuildStep
  | [] => []
  | innermost :: outer =>
      openSteps outer ++
        (.enter innermost.kind innermost.span.bounds ::
          bracketingOfForest innermost.children.toList)

/-- The steps that a builder's content spells. -/
def spelling
    (builder : Builder) :
    List BuildStep :=
  bracketingOfForest builder.root.toList ++ openSteps builder.opened

/-- A builder holds just what its steps spelled, and all of it is well nested. -/
structure Faithful
    (builder : Builder)
    (steps : List BuildStep) :
    Prop where
  spells : builder.spelling = steps
  rootNested : ∀ root ∈ builder.root, root.Nested
  openNested : ∀ opened ∈ builder.opened, opened.close.Nested

theorem faithful_empty :
    Faithful empty [] where
  spells := rfl
  rootNested := by simp [empty]
  openNested := by simp [empty]

/-- A node pushed into an open node around it keeps that node well nested. -/
theorem nested_close_push
    {opened : OpenNode}
    {node : Node}
    (openNested : opened.close.Nested)
    (inside : opened.span.Contains node.span)
    (nested : node.Nested) :
    ({ opened with children := opened.children.push node } : OpenNode).close.Nested := by
  rw [nested_iff]
  intro child isChild
  have earlierOrNew : child ∈ opened.children.toList ∨ child = node := by
    simpa [OpenNode.close] using isChild
  rcases earlierOrNew with earlier | isNew
  · exact nested_iff.mp openNested child earlier
  · subst child
    exact ⟨inside, nested⟩

/-- Entering a node adds the entry to what is spelled. -/
theorem Faithful.enter
    {builder : Builder}
    {steps : List BuildStep}
    {kind : Kind}
    {bounds : Bounds}
    (faithful : Faithful builder steps)
    (healthy : (builder.enter kind bounds).fault = none) :
    Faithful (builder.enter kind bounds) (steps ++ [.enter kind bounds]) := by
  obtain ⟨_, span, sameBounds, entered⟩ := enter_of_healthy healthy
  subst bounds
  rw [entered]
  refine ⟨?_, faithful.rootNested, ?_⟩
  · rw [← faithful.spells]
    simp [spelling, openSteps, bracketingOfForest]
  · intro opened isOpen
    rcases List.mem_cons.mp isOpen with isNew | isOlder
    · subst opened
      exact nested_iff.mpr (by simp [OpenNode.close])
    · exact faithful.openNested opened isOlder

/-- Leaving a node completes its bracket. -/
theorem Faithful.leave
    {builder : Builder}
    {steps : List BuildStep}
    (faithful : Faithful builder steps)
    (healthy : builder.leave.fault = none) :
    Faithful builder.leave (steps ++ [.leave]) := by
  obtain ⟨opened, root, fault⟩ := builder
  obtain ⟨innermost, outer, rfl, left⟩ := leave_of_healthy healthy
  have closed : innermost.close.Nested :=
    faithful.openNested innermost (by simp)
  rw [left] at healthy ⊢
  obtain ⟨_, ⟨isEmpty, noRoot, attached⟩ |
      ⟨parent, rest, isOuter, inside, attached⟩⟩ :=
    attach_of_healthy healthy
  -- With nothing open around it and no root so far, the node becomes the root.
  · subst outer root
    rw [attached]
    refine ⟨?_, ?_, by simp⟩
    · rw [← faithful.spells]
      simp [spelling, openSteps, bracketing_eq, bracketingOfForest,
        OpenNode.close]
    · intro finished isRoot
      obtain rfl := Option.mem_some_iff.mp isRoot
      exact closed
  · subst outer
    rw [attached]
    refine ⟨?_, faithful.rootNested, ?_⟩
    · rw [← faithful.spells]
      simp [spelling, openSteps, bracketing_eq, bracketingOfForest_append,
        bracketingOfForest, OpenNode.close]
    · intro opened stillOpen
      rcases List.mem_cons.mp stillOpen with isParent | isOlder
      · subst opened
        exact nested_close_push (faithful.openNested parent (by simp)) inside
          closed
      · exact faithful.openNested opened (by simp [isOlder])

/-- A step that leaves no fault adds itself to what is spelled. -/
theorem Faithful.step
    {builder : Builder}
    {steps : List BuildStep}
    {next : BuildStep}
    (faithful : Faithful builder steps)
    (isBracket : next.Bracket)
    (healthy : (builder.step next).fault = none) :
    Faithful (builder.step next) (steps ++ [next]) := by
  cases next with
  | enter kind bounds =>
      exact faithful.enter healthy
  | leaf kind bounds =>
      exact isBracket.elim
  | leave =>
      exact faithful.leave healthy

/-- Steps that leave no fault add themselves, one after the other. -/
theorem Faithful.foldl
    {builder : Builder}
    {before after : List BuildStep}
    (faithful : Faithful builder before)
    (brackets : ∀ step ∈ after, step.Bracket)
    (healthy : (after.foldl Builder.step builder).fault = none) :
    Faithful (after.foldl Builder.step builder) (before ++ after) := by
  induction after generalizing builder before with
  | nil =>
      simpa using faithful
  | cons next rest inductionHypothesis =>
      have nextFaithful :
          Faithful (builder.step next) (before ++ [next]) :=
        faithful.step (brackets next List.mem_cons_self)
          (healthy_of_foldl healthy)
      have restFaithful :=
        inductionHypothesis nextFaithful
          (fun step member => brackets step (List.mem_cons_of_mem _ member))
          healthy
      simpa using restFaithful

/-- A run without a fault holds just what its steps spell. -/
theorem faithful_run
    {steps : List BuildStep}
    (healthy : (run steps).fault = none) :
    Faithful (run steps) (spellOut steps) := by
  rw [run, ← foldl_spellOut] at healthy ⊢
  exact faithful_empty.foldl (fun _ => bracket_of_mem_spellOut) healthy

/-! What the steps of a well-nested tree build. -/

mutual

/-- The steps of a well-nested tree attach the tree. -/
theorem foldl_bracketing
    (builder : Builder) :
    (node : Node) →
      node.Nested →
        node.bracketing.foldl step builder = builder.attach node
  | ⟨kind, span, children⟩, nested => by
      have entered :
          builder.step (.enter kind span.bounds) =
            ⟨⟨kind, span, #[]⟩ :: builder.opened, builder.root,
              builder.fault⟩ := by
        simp [step, enter, spanFor]
      have filled :=
        foldl_bracketingOfForest ⟨kind, span, #[]⟩ builder.opened builder.root
          builder.fault children (nested_iff.mp nested)
      calc
        (bracketing ⟨kind, span, children⟩).foldl step builder
            = ((bracketingOfForest children).foldl step
                (builder.step (.enter kind span.bounds))).step .leave := by
          simp [bracketing]
        _ = builder.attach ⟨kind, span, children⟩ := by
          rw [entered, filled]
          simp [step, leave, OpenNode.close]

/-- The steps of several well-nested trees append them to the open node around. -/
theorem foldl_bracketingOfForest
    (opened : OpenNode)
    (outer : List OpenNode)
    (root : Option Node)
    (fault : Option TreeFault) :
    (forest : List Node) →
      (∀ node ∈ forest, opened.span.Contains node.span ∧ node.Nested) →
        (bracketingOfForest forest).foldl step ⟨opened :: outer, root, fault⟩ =
          ⟨{ opened with children := opened.children ++ forest.toArray } ::
            outer, root, fault⟩
  | [], _ => by
      simp [bracketingOfForest]
  | node :: rest, insideNested => by
      have ofNode := insideNested node List.mem_cons_self
      have pushed :=
        foldl_bracketing ⟨opened :: outer, root, fault⟩ node ofNode.2
      have appended :=
        foldl_bracketingOfForest
          { opened with children := opened.children.push node }
          outer root fault rest
          fun other member => insideNested other (List.mem_cons_of_mem _ member)
      rw [bracketingOfForest, List.foldl_append, pushed]
      simp only [attach, ofNode.1, if_true]
      rw [appended]
      simp

end

/-- The steps of a well-nested tree build the tree. -/
theorem finish_run_bracketing
    {tree : Node}
    (nested : tree.Nested) :
    (run tree.bracketing).finish = .ok tree := by
  rw [run, foldl_bracketing empty tree nested]
  rfl

/-- A builder finishes with a tree when it has no fault and only that tree. -/
theorem finish_eq_ok_iff_fields
    {builder : Builder}
    {tree : Node} :
    builder.finish = .ok tree ↔
      builder.fault = none ∧ builder.opened = [] ∧ builder.root = some tree := by
  obtain ⟨opened, root, fault⟩ := builder
  cases fault <;> cases opened <;> cases root <;> simp [finish]

/-- What a run finishes with is spelled by its steps and well nested. -/
theorem spellOut_of_finish
    {steps : List BuildStep}
    {tree : Node}
    (finished : (run steps).finish = .ok tree) :
    spellOut steps = tree.bracketing ∧ tree.Nested := by
  obtain ⟨healthy, allClosed, isRoot⟩ := finish_eq_ok_iff_fields.mp finished
  have faithful := faithful_run healthy
  constructor
  · rw [← faithful.spells]
    simp [spelling, allClosed, isRoot, openSteps, bracketingOfForest]
  · exact faithful.rootNested tree isRoot

/--
Building succeeds with a tree just when the steps, with leaves spelled out, are
the steps of the tree, bring bounds in order, and the tree passes the check; and
the steps of a tree build it just when it passes the check.
-/
theorem finish_eq_ok_iff
    (steps : List BuildStep)
    (tree : Node) :
    ((run steps).finish = .ok tree ↔
        spellOut steps = tree.bracketing ∧
          (∀ step ∈ steps, step.Ordered) ∧
            tree.validate = .ok ()) ∧
      ((run tree.bracketing).finish = .ok tree ↔
        tree.validate = .ok ()) := by
  refine ⟨⟨?_, ?_⟩, ⟨?_, ?_⟩⟩
  · intro finished
    obtain ⟨spelt, nested⟩ := spellOut_of_finish finished
    refine ⟨spelt, ordered_of_spellOut ?_, validate_eq_ok_iff.mpr nested⟩
    intro step member
    rw [spelt] at member
    exact ordered_of_mem_bracketing tree member
  · rintro ⟨spelt, _, accepted⟩
    have sameRun : run steps = run tree.bracketing := by
      rw [run, ← foldl_spellOut, spelt, run]
    rw [sameRun]
    exact finish_run_bracketing (validate_eq_ok_iff.mp accepted)
  · intro finished
    exact validate_eq_ok_iff.mpr (spellOut_of_finish finished).2
  · intro accepted
    exact finish_run_bracketing (validate_eq_ok_iff.mp accepted)

end Builder

/-- The tree passes the check for containment, or was built step by step. -/
def Node.Accepted
    (tree : Node) :
    Prop :=
  tree.validate = .ok () ∨
    ∃ steps, (Builder.run steps).finish = .ok tree

/-- Accepted trees are well nested. -/
theorem Node.Accepted.nested
    {tree : Node}
    (accepted : tree.Accepted) :
    tree.Nested := by
  rcases accepted with checked | ⟨steps, built⟩
  · exact validate_eq_ok_iff.mp checked
  · exact (Builder.spellOut_of_finish built).2

end ShaderTint
