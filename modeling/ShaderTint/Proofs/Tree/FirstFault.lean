import Mathlib.Data.List.Induction
import ShaderTint.Proofs.Tree.Bracketing

namespace ShaderTint

/-!
# The fault that a builder reports

What is wrong with a step can be told from the steps before it, without a builder: which
nodes they have left open, and whether they have completed a node with nothing open
around it. A builder reports the first step with which something is wrong, whatever
comes after it, although it goes on with stand-ins for bad bounds and without the nodes
it has dropped.

Main statement: `Builder.finish_reports_first_problem`.
-/

/-- What some steps have left open and completed. -/
structure Outline where
  /-- Kinds and bounds of the open nodes, innermost first. -/
  opened : List (Kind × Bounds)
  /-- Was a node completed with nothing open around it? -/
  hasRoot : Bool

namespace Outline

/-- Nothing opened, nothing completed. -/
def empty : Outline where
  opened := []
  hasRoot := false

/-- The outline after one more step. -/
def step
    (outline : Outline) :
    BuildStep → Outline
  | .enter kind bounds =>
      { outline with opened := (kind, bounds) :: outline.opened }
  | .leaf _ _ =>
      { outline with hasRoot := outline.hasRoot || outline.opened.isEmpty }
  | .leave =>
      match outline.opened with
      | [] => outline
      | _ :: outer => ⟨outer, outline.hasRoot || outer.isEmpty⟩

/-- The outline of steps. -/
def ofSteps
    (steps : List BuildStep) :
    Outline :=
  steps.foldl step empty

/-- Bounds have to be in order. -/
def inverted?
    (kind : Kind)
    (bounds : Bounds) :
    Option TreeFault :=
  if bounds.start ≤ bounds.stop then
    none
  else
    some (.invertedRange kind bounds)

/--
A node that is completed has to lie within the innermost node open around it, and to be
the first one if there is none.

Bounds that are not in order have been a problem when they were brought.
-/
def misplaced?
    (around : List (Kind × Bounds))
    (hasRoot : Bool)
    (kind : Kind)
    (bounds : Bounds) :
    Option TreeFault :=
  match around with
  | [] => if hasRoot then some .multipleRoots else none
  | (parent, parentBounds) :: _ =>
      match Span.ofBounds? parentBounds, Span.ofBounds? bounds with
      | some parentSpan, some span =>
          if parentSpan.Contains span then
            none
          else
            some (.childOutsideParent parent parentSpan kind span)
      | _, _ => none

/-- What is wrong with a step; of a leaf, its bounds come first. -/
def problem?
    (outline : Outline) :
    BuildStep → Option TreeFault
  | .enter kind bounds => inverted? kind bounds
  | .leaf kind bounds =>
      (inverted? kind bounds).or
        (misplaced? outline.opened outline.hasRoot kind bounds)
  | .leave =>
      match outline.opened with
      | [] => some .unbalancedFinish
      | (kind, bounds) :: outer =>
          misplaced? outer outline.hasRoot kind bounds

end Outline

namespace BuildStep

/-- Nothing is wrong with any of the steps. -/
def Harmless
    (steps : List BuildStep) :
    Prop :=
  ∀ before step after,
    steps = before ++ step :: after →
    (Outline.ofSteps before).problem? step = none

/-- Something is wrong with one of the steps, and with none before it. -/
def FirstProblem
    (steps : List BuildStep)
    (fault : TreeFault) :
    Prop :=
  ∃ before step after,
    steps = before ++ step :: after ∧
      Harmless before ∧
      (Outline.ofSteps before).problem? step = some fault

/-- Entering adds one to a depth, leaving takes one away if there is one. -/
def counted
    (depth : Nat) :
    BuildStep → Nat
  | .enter _ _ => depth + 1
  | .leaf _ _ => depth
  | .leave => depth - 1

theorem harmless_nil :
    Harmless [] := by
  intro before step after split
  simp at split

/-- Steps are harmless when all but the last are, and nothing is wrong with the last. -/
theorem harmless_concat_iff
    {steps : List BuildStep}
    {last : BuildStep} :
    Harmless (steps ++ [last]) ↔
      Harmless steps ∧ (Outline.ofSteps steps).problem? last = none := by
  constructor
  · intro harmless
    refine ⟨?_, harmless steps last [] rfl⟩
    intro before step after split
    apply harmless before step (after ++ [last])
    rw [split, List.append_assoc, List.cons_append]
  · rintro ⟨harmless, fine⟩ before step after split
    rcases List.eq_nil_or_concat after with rfl | ⟨others, other, rfl⟩
    · obtain ⟨rfl, same⟩ := List.append_inj' split rfl
      obtain rfl := List.head_eq_of_cons_eq same
      exact fine
    · have regrouped : steps ++ [last] = (before ++ step :: others) ++ [other] := by
        rw [split]
        simp
      exact harmless before step others (List.append_inj' regrouped rfl).1

/-- There is a first problem as soon as there is one. -/
theorem harmless_or_firstProblem
    (steps : List BuildStep) :
    Harmless steps ∨ ∃ fault, FirstProblem steps fault := by
  induction steps using List.reverseRecOn with
  | nil =>
      exact .inl harmless_nil
  | append_singleton steps last inductionHypothesis =>
      rcases inductionHypothesis with harmless | ⟨fault, before, step, after, split, rest⟩
      · cases found : (Outline.ofSteps steps).problem? last with
        | none =>
            exact .inl (harmless_concat_iff.mpr ⟨harmless, found⟩)
        | some fault =>
            exact .inr ⟨fault, steps, last, [], rfl, harmless, found⟩
      · refine .inr ⟨fault, before, step, after ++ [last], ?_, rest⟩
        rw [split, List.append_assoc, List.cons_append]

end BuildStep

namespace Builder

open BuildStep

/-! ## Depth -/

/-- Completing a node opens and closes nothing. -/
theorem depth_attach
    (builder : Builder)
    (node : Node) :
    (builder.attach node).depth = builder.depth := by
  obtain ⟨opened, root, fault⟩ := builder
  cases opened with
  | nil =>
      cases root <;> rfl
  | cons parent outer =>
      by_cases inside : parent.span.Contains node.span <;>
        simp [attach, inside, depth, fail]

theorem depth_enter
    (builder : Builder)
    (kind : Kind)
    (bounds : Bounds) :
    (builder.enter kind bounds).depth = builder.depth + 1 := by
  cases found : Span.ofBounds? bounds <;>
    simp [enter, spanFor, found, depth, fail]

/-- With nothing open, leaving changes no depth. -/
theorem depth_leave
    (builder : Builder) :
    builder.leave.depth = builder.depth - 1 := by
  obtain ⟨opened, root, fault⟩ := builder
  cases opened with
  | nil =>
      rfl
  | cons innermost outer =>
      exact depth_attach ⟨outer, root, fault⟩ innermost.close

/-- A step changes the depth as it is counted, fault or not. -/
theorem depth_step
    (builder : Builder)
    (taken : BuildStep) :
    (builder.step taken).depth = counted builder.depth taken := by
  cases taken with
  | enter kind bounds =>
      exact depth_enter builder kind bounds
  | leaf kind bounds =>
      calc
        (builder.step (.leaf kind bounds)).depth
            = (builder.enter kind bounds).leave.depth := by
          rw [step_leaf]
          rfl
        _ = builder.depth := by
          rw [depth_leave, depth_enter, Nat.add_sub_cancel]
  | leave =>
      exact depth_leave builder

theorem depth_foldl
    (builder : Builder)
    (steps : List BuildStep) :
    (steps.foldl step builder).depth = steps.foldl counted builder.depth := by
  induction steps generalizing builder with
  | nil =>
      rfl
  | cons first rest inductionHypothesis =>
      rw [List.foldl_cons, inductionHypothesis, depth_step, List.foldl_cons]

/-! ## Faults -/

/-- What a builder holds open, and whether it has a root. -/
def outline
    (builder : Builder) :
    Outline where
  opened := builder.opened.map fun node => (node.kind, node.span.bounds)
  hasRoot := builder.root.isSome

/-- Entering with bad bounds is a problem, and nothing else is. -/
theorem fault_enter
    (builder : Builder)
    (kind : Kind)
    (bounds : Bounds) :
    (builder.enter kind bounds).fault =
      builder.fault.or (Outline.inverted? kind bounds) := by
  by_cases ordered : bounds.start ≤ bounds.stop <;>
    simp [enter, spanFor, Span.ofBounds?, Outline.inverted?, ordered, fail]

/-- Completing a node in the wrong place is a problem. -/
theorem fault_attach
    (builder : Builder)
    (node : Node) :
    (builder.attach node).fault =
      builder.fault.or
        (Outline.misplaced? builder.outline.opened builder.outline.hasRoot
          node.kind node.span.bounds) := by
  obtain ⟨opened, root, fault⟩ := builder
  cases opened with
  | nil =>
      cases root <;> simp [attach, outline, Outline.misplaced?, fail]
  | cons parent outer =>
      by_cases inside : parent.span.Contains node.span <;>
        simp [attach, outline, Outline.misplaced?, inside, fail]

/--
A fault that is there stays, and otherwise a step reports what is wrong with it.

The builder's own outline says what is wrong, also when earlier faults have made it
differ from the outline of the steps.
-/
theorem fault_step
    (builder : Builder)
    (taken : BuildStep) :
    (builder.step taken).fault =
      builder.fault.or (builder.outline.problem? taken) := by
  cases taken with
  | enter kind bounds =>
      exact fault_enter builder kind bounds
  | leaf kind bounds =>
      by_cases ordered : bounds.start ≤ bounds.stop
      · let span : Span := ⟨bounds.start, bounds.stop, ordered, bounds.stop_lt⟩
        have attached :
            builder.step (.leaf kind bounds) = builder.attach (Node.leaf kind span) := by
          simp [step, leaf, spanFor, Span.ofBounds?, ordered, span]
        have fine : Outline.inverted? kind bounds = none :=
          if_pos ordered
        rw [attached, fault_attach, Outline.problem?, fine, Option.none_or]
        rfl
      -- The stand-in may be in the wrong place, but its bounds have failed before it.
      · have attached :
            builder.step (.leaf kind bounds) =
              (builder.fail (.invertedRange kind bounds)).attach
                (Node.leaf kind (Span.emptyAt bounds)) := by
          simp [step, leaf, spanFor, Span.ofBounds?, ordered]
        have failed :
            Outline.inverted? kind bounds = some (.invertedRange kind bounds) :=
          if_neg ordered
        rw [attached, fault_attach, Outline.problem?, failed, fail, Option.or_assoc,
          Option.some_or, Option.some_or]
  | leave =>
      obtain ⟨opened, root, fault⟩ := builder
      cases opened with
      | nil =>
          rfl
      | cons innermost outer =>
          exact fault_attach ⟨outer, root, fault⟩ innermost.close

/-- A fault is kept by every later step. -/
theorem fault_foldl_of_failed
    {builder : Builder}
    {fault : TreeFault}
    (failed : builder.fault = some fault)
    (steps : List BuildStep) :
    (steps.foldl step builder).fault = some fault := by
  induction steps generalizing builder with
  | nil =>
      exact failed
  | cons first rest inductionHypothesis =>
      apply inductionHypothesis
      rw [fault_step, failed, Option.some_or]

/-- Entering without a fault opens a node with the given bounds. -/
theorem outline_enter
    {builder : Builder}
    {kind : Kind}
    {bounds : Bounds}
    (healthy : (builder.enter kind bounds).fault = none) :
    (builder.enter kind bounds).outline =
      builder.outline.step (.enter kind bounds) := by
  obtain ⟨_, span, rfl, entered⟩ := enter_of_healthy healthy
  simp [entered, outline, Outline.step]

theorem outline_leave
    {builder : Builder}
    (healthy : builder.leave.fault = none) :
    builder.leave.outline = builder.outline.step .leave := by
  obtain ⟨opened, root, fault⟩ := builder
  obtain ⟨innermost, outer, rfl, left⟩ := leave_of_healthy healthy
  rw [left] at healthy ⊢
  obtain ⟨_, ⟨rfl, rfl, attached⟩ | ⟨parent, rest, rfl, _, attached⟩⟩ :=
    attach_of_healthy healthy <;>
  simp [attached, outline, Outline.step]

/-- A step without a fault changes the outline of the builder as that of the steps. -/
theorem outline_step
    {builder : Builder}
    {taken : BuildStep}
    (healthy : (builder.step taken).fault = none) :
    (builder.step taken).outline = builder.outline.step taken := by
  cases taken with
  | enter kind bounds =>
      exact outline_enter healthy
  | leaf kind bounds =>
      rw [step_leaf] at healthy
      calc
        (builder.step (.leaf kind bounds)).outline
            = (builder.enter kind bounds).leave.outline := by
          rw [step_leaf]
          rfl
        _ = (builder.enter kind bounds).outline.step .leave :=
          outline_leave healthy
        _ = (builder.outline.step (.enter kind bounds)).step .leave := by
          rw [outline_enter (healthy_of_step healthy)]
        _ = builder.outline.step (.leaf kind bounds) :=
          rfl
  | leave =>
      exact outline_leave healthy

theorem run_concat
    (steps : List BuildStep)
    (last : BuildStep) :
    run (steps ++ [last]) = (run steps).step last := by
  rw [run, run, List.foldl_append]
  rfl

/-- Without a fault, a builder holds the outline of its steps. -/
theorem outline_run
    {steps : List BuildStep}
    (healthy : (run steps).fault = none) :
    (run steps).outline = Outline.ofSteps steps := by
  induction steps using List.reverseRecOn with
  | nil =>
      rfl
  | append_singleton steps last inductionHypothesis =>
      rw [run_concat] at healthy ⊢
      rw [outline_step healthy, inductionHypothesis (healthy_of_step healthy),
        Outline.ofSteps, Outline.ofSteps, List.foldl_append]
      rfl

/-- A run has no fault just when nothing is wrong with its steps. -/
theorem harmless_iff_fault_run
    {steps : List BuildStep} :
    Harmless steps ↔ (run steps).fault = none := by
  -- From the last step back, since its problem is told from the steps before it.
  induction steps using List.reverseRecOn with
  | nil =>
      exact ⟨fun _ => rfl, fun _ => harmless_nil⟩
  | append_singleton steps last inductionHypothesis =>
      rw [harmless_concat_iff, inductionHypothesis, run_concat, fault_step,
        Option.or_eq_none_iff]
      constructor
      · rintro ⟨healthy, fine⟩
        exact ⟨healthy, by rw [outline_run healthy]; exact fine⟩
      · rintro ⟨healthy, fine⟩
        exact ⟨healthy, by rw [← outline_run healthy]; exact fine⟩

/-- The first problem is reported, whatever comes after it. -/
theorem fault_of_firstProblem
    {steps : List BuildStep}
    {fault : TreeFault}
    (isFirst : FirstProblem steps fault)
    (more : List BuildStep) :
    (run (steps ++ more)).fault = some fault := by
  obtain ⟨before, bad, after, rfl, harmless, wrong⟩ := isFirst
  have healthy := harmless_iff_fault_run.mp harmless
  have failed : ((run before).step bad).fault = some fault := by
    rw [fault_step, healthy, Option.none_or, outline_run healthy, wrong]
  have split :
      run (before ++ bad :: after ++ more) =
        (after ++ more).foldl step ((run before).step bad) := by
    simp [run]
  rw [split]
  exact fault_foldl_of_failed failed (after ++ more)

/-- A first problem of the steps is the fault of their run. -/
theorem firstProblem_iff_fault_run
    {steps : List BuildStep}
    {fault : TreeFault} :
    FirstProblem steps fault ↔ (run steps).fault = some fault := by
  constructor
  · intro isFirst
    simpa using fault_of_firstProblem isFirst []
  · intro failed
    rcases harmless_or_firstProblem steps with harmless | ⟨other, isFirst⟩
    · rw [harmless_iff_fault_run.mp harmless] at failed
      cases failed
    · have reported := fault_of_firstProblem isFirst []
      rw [List.append_nil, failed] at reported
      obtain rfl := Option.some.inj reported
      exact isFirst

/-! ## Finishing -/

/-- A fault is reported before anything that is missing at the end. -/
theorem finish_of_failed
    {builder : Builder}
    {fault : TreeFault}
    (failed : builder.fault = some fault) :
    builder.finish = .error fault := by
  simp [finish, failed]

theorem finish_of_open
    {builder : Builder}
    (healthy : builder.fault = none)
    (isOpen : 0 < builder.depth) :
    builder.finish = .error (.unclosedNodes builder.depth) := by
  have notEmpty : builder.opened ≠ [] :=
    List.ne_nil_of_length_pos isOpen
  simp [finish, healthy, notEmpty]

/-- Steps without a fault that leave nothing open have completed a root. -/
theorem exists_root_of_closed
    {steps : List BuildStep}
    (healthy : (run steps).fault = none)
    (closed : (run steps).depth = 0)
    (someStep : steps ≠ []) :
    ∃ root, (run steps).root = some root := by
  have nothingOpen : (run steps).opened = [] :=
    List.eq_nil_of_length_eq_zero closed
  cases found : (run steps).root with
  | some root =>
      exact ⟨root, rfl⟩
  | none =>
      -- A builder without content has spelled nothing, so it was given no step.
      have spelt : spellOut steps = [] := by
        rw [← (faithful_run healthy).spells, spelling, found, nothingOpen]
        rfl
      cases steps with
      | nil =>
          exact absurd rfl someStep
      | cons first rest =>
          cases first <;> simp [spellOut, spelled] at spelt

/--
Finishing reports the first problem of the steps, whatever steps come after it.

Without a problem it reports how many nodes are open, or that there was no step, and
otherwise gives a tree. The depth counts entries and departures in either case.
-/
theorem finish_reports_first_problem
    (steps : List BuildStep) :
    (∀ fault, FirstProblem steps fault ↔ (run steps).fault = some fault) ∧
      (∀ fault,
        FirstProblem steps fault →
        ∀ more, (run (steps ++ more)).finish = .error fault) ∧
      (Harmless steps ↔ (run steps).fault = none) ∧
      (Harmless steps →
        (0 < (run steps).depth →
          (run steps).finish = .error (.unclosedNodes (run steps).depth)) ∧
        (steps = [] → (run steps).finish = .error .empty) ∧
        ((run steps).depth = 0 →
          steps ≠ [] →
          ∃ tree, (run steps).finish = .ok tree)) ∧
      (run steps).depth = steps.foldl counted 0 := by
  refine ⟨?_, ?_, ?_, ?_, ?_⟩
  · intro fault
    exact firstProblem_iff_fault_run
  · intro fault isFirst more
    exact finish_of_failed (fault_of_firstProblem isFirst more)
  · exact harmless_iff_fault_run
  · intro harmless
    have healthy := harmless_iff_fault_run.mp harmless
    refine ⟨finish_of_open healthy, ?_, ?_⟩
    · rintro rfl
      rfl
    · intro closed someStep
      obtain ⟨tree, isRoot⟩ := exists_root_of_closed healthy closed someStep
      have nothingOpen : (run steps).opened = [] :=
        List.eq_nil_of_length_eq_zero closed
      exact ⟨tree, finish_eq_ok_iff_fields.mpr ⟨healthy, nothingOpen, isRoot⟩⟩
  · exact depth_foldl empty steps

end Builder

end ShaderTint
