import ShaderTint.Proofs.Pass.Reach

namespace ShaderTint

/-!
# The log as a transcript of a pass

With tracing on, a pass writes down each highlight that it hands over, next to the
missing parts and mismatches it comes across, and at the end how it ended. The log
follows what is handed over, not what the receiver keeps of it.

Main statements: `Pass.run_silenced` says that tracing changes nothing but the log,
and there only by the events of highlights; `Pass.run_writes_transcript` says what
the events of a pass are, for every receiver and however the pass ends.
-/

/-! ## The events of effects -/

/-- The event of an emission that is traced. -/
def tracedEvent
    (emission : Tag × Node) :
    Event :=
  .highlighted emission.1 emission.2.span emission.2.kind

/-- With tracing off, everything else is as it was. -/
def PassSettings.silenced
    (settings : PassSettings) :
    PassSettings :=
  { settings with trace := false }

namespace Effect

/-- With tracing on, the events of highlights are those of the emissions. -/
theorem filter_isHighlighted_events
    {settings : PassSettings}
    (traces : settings.trace = true)
    (effects : List Effect) :
    (effects.filterMap (event? settings)).filter Event.isHighlighted =
      (emissionsOf effects).map tracedEvent := by
  rw [List.filter_filterMap, emissionsOf, List.map_filterMap]
  congr 1
  funext effect
  cases effect with
  | emit tag target =>
      simp [event?, traces, Event.isHighlighted, emission?, tracedEvent]
  | skip owner part =>
      simp [event?, Event.isHighlighted, emission?]
  | record mismatch =>
      by_cases logs : settings.reporting = .log <;>
        simp [event?, logs, Event.isHighlighted, emission?]

/-- With tracing off, effects leave the same events less those of highlights. -/
theorem events_silenced
    (settings : PassSettings)
    (effects : List Effect) :
    effects.filterMap (event? settings.silenced) =
      (effects.filterMap (event? settings)).filter
        (!·.isHighlighted) := by
  rw [List.filter_filterMap]
  congr 1
  funext effect
  cases effect with
  | emit tag target =>
      by_cases traces : settings.trace = true <;>
        simp [event?, PassSettings.silenced, traces, Option.filter,
          Event.isHighlighted]
  | skip owner part =>
      rfl
  | record mismatch =>
      by_cases logs : settings.reporting = .log <;>
        simp [event?, PassSettings.silenced, logs, Option.filter,
          Event.isHighlighted]

/-- No effect leaves an event that says how a pass ended. -/
theorem level_ne_debug_of_mem_events
    {settings : PassSettings}
    {effects : List Effect}
    {event : Event}
    (member : event ∈ effects.filterMap (event? settings)) :
    event.level ≠ .debug := by
  obtain ⟨effect, _, leaves⟩ := List.mem_filterMap.mp member
  cases effect with
  | emit tag target =>
      cases (Option.ite_none_right_eq_some.mp leaves).2
      simp [Event.level]
  | skip owner part =>
      cases leaves
      simp [Event.level]
  | record mismatch =>
      cases (Option.ite_none_right_eq_some.mp leaves).2
      simp [Event.level]

end Effect

/-! ## Passes with tracing off -/

namespace Pass

/-- A log without the events of highlights. -/
def Progress.silenced
    (progress : Progress σ) :
    Progress σ :=
  { progress with log := progress.log.filter (!·.isHighlighted) }

/-- What a pass leaves behind, without the events of highlights. -/
def Result.silenced
    (result : Result σ) :
    Result σ :=
  { result with log := result.log.filter (!·.isHighlighted) }

section

variable [Sink σ]

/-- One visit with tracing off. -/
theorem visit_silenced
    (settings : PassSettings)
    (progress : Progress σ)
    (frame : Frame) :
    visit settings.silenced progress.silenced frame =
      (visit settings progress frame).silenced := by
  rw [visit_eq_after, visit_eq_after]
  have sameLog :
      (progress.silenced.after settings.silenced 1
          (settings.rules frame.parent frame.node)).log =
        (progress.after settings 1
          (settings.rules frame.parent frame.node)).silenced.log := by
    simp [Progress.after, Progress.silenced, Effect.events_silenced]
  exact congrArg
    (fun log =>
      { progress.after settings 1 (settings.rules frame.parent frame.node)
        with log := log })
    sameLog

omit [Sink σ] in
theorem conclude_silenced
    (progress : Progress σ)
    (outcome : Outcome) :
    conclude progress.silenced outcome =
      Prod.map id Progress.silenced (conclude progress outcome) := by
  cases outcome <;>
    simp [conclude, Progress.silenced, Event.isHighlighted]

/-- A scan with tracing off. -/
theorem scan_silenced
    (settings : PassSettings)
    (frames : List Frame)
    (progress : Progress σ) :
    scan settings.silenced frames progress.silenced =
      Prod.map id Progress.silenced (scan settings frames progress) := by
  induction frames generalizing progress with
  | nil =>
      exact conclude_silenced progress _
  | cons frame rest inductionHypothesis =>
      -- The log has no say in when a pass ends.
      have sameHalt :
          halted settings.silenced progress.silenced.host =
            halted settings progress.host :=
        rfl
      rw [scan, scan, sameHalt]
      split
      · exact conclude_silenced progress _
      · rw [visit_silenced]
        exact inductionHypothesis _

/-- With tracing off a pass leaves the same behind, less the events of highlights. -/
theorem run_silenced
    (settings : PassSettings)
    (root : Node)
    (host : Host σ) :
    run settings.silenced root host =
      (run settings root host).silenced := by
  have scanned :=
    scan_silenced settings (framesOf none root) (Progress.start host)
  have fromStart :
      (Progress.start host).silenced = Progress.start host :=
    rfl
  rw [fromStart] at scanned
  rw [run_eq_scan, run_eq_scan, scanned]
  rfl

/-! ## The transcript -/

/-- The log of a pass: the events of its visits, then how it ended. -/
theorem toList_log_run
    (settings : PassSettings)
    (root : Node)
    (host : Host σ) :
    let outcome := (run settings root host).outcome
    (run settings root host).log.toList =
      (effectsBefore settings.rules root outcome.visited).filterMap
          (Effect.event? settings) ++
        [outcome.event] := by
  intro outcome
  obtain ⟨enough, _, logged⟩ := run_eq_standing settings root host
  rw [logged, standing_eq_after settings root host enough]
  simp [Progress.after, Progress.start, outcome]

end

/-- An event writes down a highlight, with the kind of a node of the tree that has its span. -/
def WritesDown
    (tree : Node)
    (event : Event)
    (highlight : Highlight) :
    Prop :=
  ∃ node ∈ tree.preorder,
    node.span = highlight.span ∧
      event = .highlighted highlight.tag highlight.span node.kind

/-- What the first visits of a pass emit is meant for nodes of the tree. -/
theorem mem_preorder_of_mem_emissionsOf
    {root : Node}
    {visits : Nat}
    {emission : Tag × Node}
    (member :
      emission ∈ emissionsOf (effectsBefore Rule.effects root visits)) :
    emission.2 ∈ root.preorder := by
  rw [Occurrence.effectsBefore_eq_flatMap, emissionsOf,
    List.filterMap_flatMap] at member
  obtain ⟨source, visited, emitted⟩ := List.mem_flatMap.mp member
  change emission ∈ emissionsOf source.ruleEffects at emitted
  rw [Occurrence.emissionsOf_ruleEffects] at emitted
  obtain ⟨⟨tag, target⟩, listed, rfl⟩ := List.mem_map.mp emitted
  have reached : Occurrence.Within root source :=
    Occurrence.mem_occurrences_iff.mp (List.mem_of_mem_take visited)
  exact (reached.of_entry (Table.mem_entries_iff.mp listed)).mem_preorder

/-- The traced events of emissions for nodes of a tree write down their highlights. -/
theorem forall₂_writesDown
    {tree : Node}
    {emissions : List (Tag × Node)}
    (inTree : ∀ emission ∈ emissions, emission.2 ∈ tree.preorder) :
    List.Forall₂ (WritesDown tree)
      (emissions.map tracedEvent) (emissions.map highlightOf) := by
  rw [List.forall₂_map_left_iff, List.forall₂_map_right_iff,
    List.forall₂_same]
  intro emission member
  exact ⟨emission.2, inTree emission member, rfl, rfl⟩

/--
The log is a transcript of the pass and nothing more.

A record around the receiver shows what the receiver is handed, whatever it keeps
of it. With tracing on, the events of highlights write that down, one for each and
in order. One event says how the pass ended, just as its outcome does, and it is
the last one. With tracing off the pass ends alike and leaves the receiver, the
flags, the collected mismatches and the record alike; its log lacks the events of
highlights and no others.
-/
theorem run_writes_transcript
    [Sink σ]
    (tree : Node)
    (context : Context)
    (reporting : Reporting)
    (host : Host σ) :
    let tracing := Context.settings { context with trace := true } reporting
    let silent := Context.settings { context with trace := false } reporting
    let result := run tracing tree host
    let recorded := run tracing tree host.recorded
    recorded.mapSink Recorded.sink = result ∧
      List.Forall₂ (WritesDown tree)
        (result.log.toList.filter Event.isHighlighted)
        recorded.host.sink.received.toList ∧
      result.log.toList.filter (·.level = .debug) =
        [result.outcome.event] ∧
      result.log.back? = some result.outcome.event ∧
      (run silent tree host).outcome = result.outcome ∧
      (run silent tree host).host = result.host ∧
      (run silent tree host.recorded).host = recorded.host ∧
      (run silent tree host).log.toList =
        result.log.toList.filter (!·.isHighlighted) := by
  intro tracing silent result recorded
  have logged : result.log.toList = _ :=
    toList_log_run tracing tree host
  have received : recorded.host.sink.received.toList = _ :=
    received_run_recorded tracing tree host
  have quiet : run silent tree host = result.silenced :=
    run_silenced tracing tree host
  have quietRecorded :
      run silent tree host.recorded = recorded.silenced :=
    run_silenced tracing tree host.recorded
  refine ⟨run_recorded tracing tree host, ?_, ?_, ?_, ?_, ?_, ?_, ?_⟩
  · have notHighlighted :
        [result.outcome.event].filter Event.isHighlighted = [] := by
      cases result.outcome <;> rfl
    rw [logged, received, List.filter_append, notHighlighted,
      List.append_nil, Effect.filter_isHighlighted_events rfl]
    exact forall₂_writesDown fun _ => mem_preorder_of_mem_emissionsOf
  · have isEnding :
        [result.outcome.event].filter (·.level = .debug) =
          [result.outcome.event] := by
      cases result.outcome <;> rfl
    have noneBefore :
        ∀ event ∈
            (effectsBefore tracing.rules tree
              result.outcome.visited).filterMap (Effect.event? tracing),
          ¬ decide (event.level = .debug) = true := by
      intro event member
      simpa using Effect.level_ne_debug_of_mem_events member
    rw [logged, List.filter_append, isEnding,
      List.filter_eq_nil_iff.mpr noneBefore, List.nil_append]
  · rw [← Array.getLast?_toList, logged, List.getLast?_concat]
  · rw [quiet]
    rfl
  · rw [quiet]
    rfl
  · rw [quietRecorded]
    rfl
  · rw [quiet]
    simp [Result.silenced]

end Pass

end ShaderTint
