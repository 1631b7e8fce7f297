import ShaderTint.Proofs.Highlight.FirstSeen
import ShaderTint.Proofs.Pass.Order

namespace ShaderTint

/-!
# What effects leave behind

The effects of a rule reach a host one at a time. Here what a whole list of
effects leaves behind is given at once: which highlights the receiver gets, which
mismatches are reported where, which events go to the log and what is counted.

Main statement: `Pass.foldl_visit` says where a pass stands once it has visited a
list of frames, for every receiver. A receiver is *quiet* when it never asks to
stop and leaves the flags alone; `Pass.walk_of_quiet` says that a pass into a
quiet receiver, with its flag down, visits every frame.
-/

namespace Effect

/-- The tag and the node of an emission. -/
def emission? : Effect → Option (Tag × Node)
  | .emit tag target => some (tag, target)
  | .skip _ _ => none
  | .record _ => none

/-- The mismatch that an effect records. -/
def mismatch? : Effect → Option ShapeMismatch
  | .emit _ _ => none
  | .skip _ _ => none
  | .record mismatch => some mismatch

/-- The event that an effect leaves in the log. -/
def event?
    (settings : PassSettings) :
    Effect → Option Event
  | .emit tag target =>
      if settings.trace then
        some (.highlighted tag target.span target.kind)
      else
        none
  | .skip owner part => some (.skipped owner.kind owner.span part)
  | .record mismatch =>
      if settings.reporting = .log then
        some (.mismatched mismatch)
      else
        none

end Effect

/-- The mismatch that an event reports. -/
def Event.mismatch? : Event → Option ShapeMismatch
  | .mismatched mismatch => some mismatch
  | _ => none

/-- The emissions among effects. -/
def emissionsOf
    (effects : List Effect) :
    List (Tag × Node) :=
  effects.filterMap Effect.emission?

/-- The mismatches that effects hand to the diagnostics. -/
def mismatchesOf
    (effects : List Effect) :
    List ShapeMismatch :=
  effects.filterMap Effect.mismatch?

/-- The highlight of an emission covers the whole node. -/
def highlightOf
    (emission : Tag × Node) :
    Highlight where
  span := emission.2.span
  tag := emission.1

/-- The highlights of effects, in order. -/
def highlightsOf
    (effects : List Effect) :
    List Highlight :=
  (emissionsOf effects).map highlightOf

@[simp]
theorem emissionsOf_nil :
    emissionsOf [] = [] :=
  rfl

@[simp]
theorem emissionsOf_append
    (first second : List Effect) :
    emissionsOf (first ++ second) =
      emissionsOf first ++ emissionsOf second := by
  simp [emissionsOf]

@[simp]
theorem mismatchesOf_append
    (first second : List Effect) :
    mismatchesOf (first ++ second) =
      mismatchesOf first ++ mismatchesOf second := by
  simp [mismatchesOf]

@[simp]
theorem highlightsOf_append
    (first second : List Effect) :
    highlightsOf (first ++ second) =
      highlightsOf first ++ highlightsOf second := by
  simp [highlightsOf]

/-- Every emission makes one highlight. -/
theorem length_highlightsOf
    (effects : List Effect) :
    (highlightsOf effects).length = (emissionsOf effects).length := by
  rw [highlightsOf, List.length_map]

/-- The highlights of the effects of several sources. -/
theorem highlightsOf_flatMap
    (sources : List ι)
    (effects : ι → List Effect) :
    highlightsOf (sources.flatMap effects) =
      sources.flatMap fun source => highlightsOf (effects source) := by
  simp only [highlightsOf, emissionsOf, List.filterMap_flatMap,
    List.map_flatMap]

/-- The mismatches of the effects of several sources. -/
theorem mismatchesOf_flatMap
    (sources : List ι)
    (effects : ι → List Effect) :
    mismatchesOf (sources.flatMap effects) =
      sources.flatMap fun source => mismatchesOf (effects source) := by
  simp only [mismatchesOf, List.filterMap_flatMap]

/-! ## Receivers of several highlights -/

namespace Sink

section

variable [Sink σ]

/-- Take highlights one after the other. -/
def addAll :
    List Highlight → σ → Flags → σ × Flags
  | [], sink, flags => (sink, flags)
  | highlight :: rest, sink, flags =>
      addAll rest (add highlight sink flags).1 (add highlight sink flags).2

/-- Taking two lists of highlights is taking one after the other. -/
theorem addAll_append
    (first second : List Highlight)
    (sink : σ)
    (flags : Flags) :
    addAll (first ++ second) sink flags =
      addAll second
        (addAll first sink flags).1 (addAll first sink flags).2 := by
  induction first generalizing sink flags with
  | nil =>
      rfl
  | cons highlight rest inductionHypothesis =>
      exact inductionHypothesis _ _

end

/-- A receiver that never asks to stop and leaves the flags alone. -/
class Quiet (σ : Type) [Sink σ] : Prop where
  flags_add :
    ∀ (highlight : Highlight) (sink : σ) (flags : Flags),
      (add highlight sink flags).2 = flags
  shouldStop_eq_false :
    ∀ sink : σ, shouldStop sink = false

instance : Quiet (Array Highlight) where
  flags_add _ _ _ := rfl
  shouldStop_eq_false _ := rfl

instance : Quiet DistinctHighlights where
  flags_add _ _ _ := rfl
  shouldStop_eq_false _ := rfl

/-- A quiet receiver leaves the flags alone, however much it takes. -/
theorem flags_addAll
    [Sink σ]
    [Quiet σ]
    (highlights : List Highlight)
    (sink : σ)
    (flags : Flags) :
    (addAll highlights sink flags).2 = flags := by
  induction highlights generalizing sink flags with
  | nil =>
      rfl
  | cons highlight rest inductionHypothesis =>
      rw [addAll, inductionHypothesis, Quiet.flags_add]

/-- A plain list takes highlights at its end. -/
theorem toList_addAll_array
    (highlights : List Highlight)
    (items : Array Highlight)
    (flags : Flags) :
    (addAll highlights items flags).1.toList =
      items.toList ++ highlights := by
  induction highlights generalizing items flags with
  | nil =>
      simp [addAll]
  | cons highlight rest inductionHypothesis =>
      rw [addAll, inductionHypothesis]
      simp [add]

/-- A distinct collection takes highlights one after the other. -/
theorem addAll_distinct
    (highlights : List Highlight)
    (collection : DistinctHighlights)
    (flags : Flags) :
    addAll highlights collection flags =
      (highlights.foldl DistinctHighlights.insert collection, flags) := by
  induction highlights generalizing collection with
  | nil =>
      rfl
  | cons highlight rest inductionHypothesis =>
      exact inductionHypothesis (collection.insert highlight)

end Sink

/-! ## The state of a pass after some effects -/

namespace Pass

/-- The effects that a table of rules lists for frames. -/
def effectsOf
    (rules : RuleTable)
    (frames : List Frame) :
    List Effect :=
  frames.flatMap fun frame => rules frame.parent frame.node

section

variable [Sink σ]

/-- Where a pass stands after visiting so many nodes with these effects. -/
def Progress.after
    (progress : Progress σ)
    (settings : PassSettings)
    (visits : Nat)
    (effects : List Effect) :
    Progress σ where
  host := {
    sink :=
      (Sink.addAll (highlightsOf effects)
        progress.host.sink progress.host.flags).1
    flags :=
      (Sink.addAll (highlightsOf effects)
        progress.host.sink progress.host.flags).2
    collected :=
      if settings.reporting = .collect then
        progress.host.collected ++ (mismatchesOf effects).toArray
      else
        progress.host.collected
  }
  stats := {
    nodesVisited := progress.stats.nodesVisited + visits
    highlightsEmitted :=
      progress.stats.highlightsEmitted + (emissionsOf effects).length
    mismatches := progress.stats.mismatches + (mismatchesOf effects).length
  }
  log :=
    progress.log ++ (effects.filterMap (Effect.event? settings)).toArray

/-- Without visits and effects a pass stays where it is. -/
theorem Progress.after_nothing
    (progress : Progress σ)
    (settings : PassSettings) :
    progress.after settings 0 [] = progress := by
  simp [Progress.after, emissionsOf, mismatchesOf, highlightsOf,
    Sink.addAll]

/-- What two lists of effects leave behind adds up. -/
theorem Progress.after_after
    (progress : Progress σ)
    (settings : PassSettings)
    (firstVisits secondVisits : Nat)
    (first second : List Effect) :
    (progress.after settings firstVisits first).after
        settings secondVisits second =
      progress.after settings
        (firstVisits + secondVisits) (first ++ second) := by
  by_cases collects : settings.reporting = .collect <;>
    simp [Progress.after, Sink.addAll_append, collects, Nat.add_assoc,
      Array.append_assoc]

/-- One effect carried out. -/
theorem perform_eq_after
    (settings : PassSettings)
    (progress : Progress σ)
    (effect : Effect) :
    perform settings progress effect =
      progress.after settings 0 [effect] := by
  cases effect with
  | emit tag target =>
      by_cases traces : settings.trace = true <;>
        simp [perform, emit, Progress.after, highlightsOf, emissionsOf,
          mismatchesOf, List.filterMap_cons, Effect.emission?,
          Effect.mismatch?, Effect.event?, highlightOf, Sink.addAll, traces]
  | skip owner part =>
      simp [perform, Progress.after, highlightsOf, emissionsOf,
        mismatchesOf, List.filterMap_cons, Effect.emission?,
        Effect.mismatch?, Effect.event?, Sink.addAll]
  | record mismatch =>
      cases reports : settings.reporting <;>
        simp [perform, record, Progress.after, highlightsOf, emissionsOf,
          mismatchesOf, List.filterMap_cons, Effect.emission?,
          Effect.mismatch?, Effect.event?, Sink.addAll, reports]

/-- A list of effects carried out. -/
theorem foldl_perform
    (settings : PassSettings)
    (progress : Progress σ)
    (effects : List Effect) :
    effects.foldl (perform settings) progress =
      progress.after settings 0 effects := by
  induction effects generalizing progress with
  | nil =>
      exact (progress.after_nothing settings).symm
  | cons effect rest inductionHypothesis =>
      rw [List.foldl_cons, inductionHypothesis, perform_eq_after,
        Progress.after_after]
      rfl

/-- One node visited. -/
theorem visit_eq_after
    (settings : PassSettings)
    (progress : Progress σ)
    (frame : Frame) :
    visit settings progress frame =
      progress.after settings 1 (settings.rules frame.parent frame.node) := by
  rw [visit, foldl_perform]
  simp [Progress.after]

/-- A list of frames visited. -/
theorem foldl_visit
    (settings : PassSettings)
    (progress : Progress σ)
    (frames : List Frame) :
    frames.foldl (visit settings) progress =
      progress.after settings
        frames.length (effectsOf settings.rules frames) := by
  induction frames generalizing progress with
  | nil =>
      exact (progress.after_nothing settings).symm
  | cons frame rest inductionHypothesis =>
      rw [List.foldl_cons, inductionHypothesis, visit_eq_after,
        Progress.after_after, List.length_cons, Nat.add_comm]
      rfl

/-! ## Passes into quiet receivers -/

/-- No flag that the pass watches is up. -/
def FlagDown
    (settings : PassSettings)
    (flags : Flags) :
    Prop :=
  settings.watched.any flags.isRaised = false

/-- A quiet receiver is never the reason to stop. -/
theorem halted_eq_false_of_quiet
    [Sink.Quiet σ]
    {settings : PassSettings}
    {host : Host σ}
    (flagDown : FlagDown settings host.flags) :
    halted settings host = false := by
  unfold FlagDown at flagDown
  simp [halted, flagDown, Sink.Quiet.shouldStop_eq_false]

/-- Visiting a node for a quiet receiver leaves the flags alone. -/
theorem flags_visit_of_quiet
    [Sink.Quiet σ]
    (settings : PassSettings)
    (progress : Progress σ)
    (frame : Frame) :
    (visit settings progress frame).host.flags = progress.host.flags := by
  rw [visit_eq_after]
  exact Sink.flags_addAll _ _ _

/-- With a quiet receiver and its flag down, nothing stops a pass. -/
theorem unhalted_of_quiet
    [Sink.Quiet σ]
    {settings : PassSettings}
    (frames : List Frame)
    {progress : Progress σ}
    (flagDown : FlagDown settings progress.host.flags) :
    Unhalted settings frames progress := by
  induction frames generalizing progress with
  | nil =>
      trivial
  | cons frame rest inductionHypothesis =>
      refine ⟨halted_eq_false_of_quiet flagDown, ?_⟩
      apply inductionHypothesis
      rw [flags_visit_of_quiet]
      exact flagDown

/--
A pass into a quiet receiver, with its flag down, finishes after all the frames
of its tree.
-/
theorem walk_of_quiet
    [Sink.Quiet σ]
    {settings : PassSettings}
    (root : Node)
    {progress : Progress σ}
    (flagDown : FlagDown settings progress.host.flags) :
    walk settings [{ node := root, parent := none }] progress =
      conclude
        (progress.after settings root.size
          (effectsOf settings.rules (framesOf none root)))
        (.finished
          (progress.after settings root.size
            (effectsOf settings.rules (framesOf none root))).stats) := by
  rw [walk_eq_scan, pendingFrames_singleton,
    scan_of_unhalted (unhalted_of_quiet _ flagDown), foldl_visit,
    length_framesOf]

/--
A pass into a quiet receiver, with its flag down, takes up all the frames of its
tree.
-/
theorem trail_of_quiet
    [Sink.Quiet σ]
    {settings : PassSettings}
    (root : Node)
    {progress : Progress σ}
    (flagDown : FlagDown settings progress.host.flags) :
    trail settings [{ node := root, parent := none }] progress =
      framesOf none root := by
  rw [trail_of_unhalted (unhalted_of_quiet _ flagDown),
    pendingFrames_singleton]

/-- Where a pass over a whole tree ends up. -/
def completed
    (settings : PassSettings)
    (root : Node)
    (host : Host σ) :
    Progress σ :=
  (Progress.start host).after settings root.size
    (effectsOf settings.rules (framesOf none root))

/-- What a pass into a quiet receiver, with its flag down, leaves behind. -/
theorem run_of_quiet
    [Sink.Quiet σ]
    {settings : PassSettings}
    (root : Node)
    (host : Host σ)
    (flagDown : FlagDown settings host.flags) :
    run settings root host =
      {
        outcome := .finished (completed settings root host).stats
        host := (completed settings root host).host
        log :=
          (completed settings root host).log.push
            (.finished (completed settings root host).stats)
      } := by
  have startDown :
      FlagDown settings (Progress.start host).host.flags :=
    flagDown
  rw [run, walk_of_quiet root startDown]
  rfl

end

/-- A pass into a distinct collection, with its flag down, adds each highlight once. -/
theorem toList_sink_run_distinct
    {settings : PassSettings}
    {host : Host DistinctHighlights}
    (flagDown : FlagDown settings host.flags)
    (root : Node) :
    (run settings root host).host.sink.toList =
      (host.sink.toList ++
        highlightsOf
          (effectsOf settings.rules (framesOf none root))).eraseDups := by
  rw [run_of_quiet root host flagDown,
    ← DistinctHighlights.toList_foldl_insert]
  exact congrArg (fun added => added.1.toList)
    (Sink.addAll_distinct _ _ _)

/-- A flag that is down does not stop a pass under its context. -/
theorem flagDown_settings
    {context : Context}
    {flags : Flags}
    (flagDown : flags.isRaised context.family = false)
    (reporting : Reporting) :
    FlagDown (context.settings reporting) flags := by
  simpa [FlagDown, Context.settings] using flagDown

/-- A pass into an empty list fills it with what the rules ask for, however it reports. -/
theorem run_rawHost_reporting
    (context : Context)
    (reporting : Reporting)
    (tree : Node) :
    let effects := effectsOf Rule.effects (framesOf none tree)
    let result := run (context.settings reporting) tree rawHost
    result.outcome =
        .finished {
          nodesVisited := tree.size
          highlightsEmitted := (emissionsOf effects).length
          mismatches := (mismatchesOf effects).length
        } ∧
      result.host.sink.toList = highlightsOf effects := by
  intro effects result
  have ended : result = _ :=
    run_of_quiet tree rawHost
      (flagDown_settings (Flags.isRaised_clear _) reporting)
  rw [ended]
  refine ⟨?_, Sink.toList_addAll_array _ _ _⟩
  simp [completed, Progress.after, Progress.start, PassStats.zero,
    Context.settings, effects]

/-- A pass from nothing leaves behind what the rules ask for all over the tree. -/
theorem run_rawHost
    (context : Context)
    (tree : Node) :
    let effects := effectsOf Rule.effects (framesOf none tree)
    let result := run (context.settings .collect) tree rawHost
    result.outcome =
        .finished {
          nodesVisited := tree.size
          highlightsEmitted := (emissionsOf effects).length
          mismatches := (mismatchesOf effects).length
        } ∧
      result.host.sink.toList = highlightsOf effects ∧
      result.host.collected.toList = mismatchesOf effects := by
  intro effects result
  have ended : result = _ :=
    run_of_quiet tree rawHost
      (flagDown_settings (Flags.isRaised_clear _) .collect)
  obtain ⟨outcome, highlights⟩ := run_rawHost_reporting context .collect tree
  refine ⟨outcome, highlights, ?_⟩
  rw [ended]
  simp [completed, Progress.after, Progress.start, Context.settings,
    rawHost, effects]

end Pass

end ShaderTint
