import ShaderTint.Proofs.Pass.Interruption

namespace ShaderTint

/-!
# Recording what a receiver is handed

A pass knows its receiver only by handing over highlights and by asking whether
it should stop. So every receiver can be put inside one that writes down each
highlight it is handed, and passes do not notice.

Main statements: `Pass.run_mapSink` carries passes over from one receiver to
another, and `Pass.received_run_recorded` says for every receiver, and however a
pass ends, that the rules of the nodes it has visited ask for just the highlights
it has handed over.
-/

/-! ## Receivers that follow one another -/

/-- Put another receiver in a host. -/
def Host.mapSink
    (f : σ → τ)
    (host : Host σ) :
    Host τ where
  sink := f host.sink
  flags := host.flags
  collected := host.collected

/-- A map to receivers that take highlights and ask to stop just as the given ones do. -/
structure Sink.Follows
    [Sink σ]
    [Sink τ]
    (f : σ → τ) :
    Prop where
  add_eq :
    ∀ (highlight : Highlight) (sink : σ) (flags : Flags),
      Sink.add highlight (f sink) flags =
        Prod.map f id (Sink.add highlight sink flags)
  shouldStop_eq :
    ∀ sink : σ, Sink.shouldStop (f sink) = Sink.shouldStop sink

/-- Receivers that follow one another take whole lists of highlights alike. -/
theorem Sink.Follows.addAll_eq
    [Sink σ]
    [Sink τ]
    {f : σ → τ}
    (follows : Sink.Follows f)
    (highlights : List Highlight)
    (sink : σ)
    (flags : Flags) :
    Sink.addAll highlights (f sink) flags =
      Prod.map f id (Sink.addAll highlights sink flags) := by
  induction highlights generalizing sink flags with
  | nil =>
      rfl
  | cons highlight rest inductionHypothesis =>
      rw [Sink.addAll, Sink.addAll, follows.add_eq]
      exact inductionHypothesis _ _

/-- The number of nodes that a pass says it has visited. -/
def Outcome.visited : Outcome → Nat
  | .finished stats => stats.nodesVisited
  | .interrupted visited => visited

/-- The event with which a pass says how it ended. -/
def Outcome.event : Outcome → Event
  | .finished stats => .finished stats
  | .interrupted visited => .interrupted visited

/-- How a pass ended is not a mismatch. -/
theorem Outcome.mismatch?_event
    (outcome : Outcome) :
    outcome.event.mismatch? = none := by
  cases outcome <;> rfl

namespace Pass

/-- Put another receiver in the middle of a pass. -/
def Progress.mapSink
    (f : σ → τ)
    (progress : Progress σ) :
    Progress τ where
  host := progress.host.mapSink f
  stats := progress.stats
  log := progress.log

/-- Put another receiver in what a pass leaves behind. -/
def Result.mapSink
    (f : σ → τ)
    (result : Result σ) :
    Result τ where
  outcome := result.outcome
  host := result.host.mapSink f
  log := result.log

section

variable [Sink σ] [Sink τ] {f : σ → τ}

theorem halted_mapSink
    (follows : Sink.Follows f)
    (settings : PassSettings)
    (host : Host σ) :
    halted settings (host.mapSink f) = halted settings host := by
  rw [halted, halted, Host.mapSink, follows.shouldStop_eq]

/-- One visit for a receiver that follows another. -/
theorem visit_mapSink
    (follows : Sink.Follows f)
    (settings : PassSettings)
    (progress : Progress σ)
    (frame : Frame) :
    visit settings (progress.mapSink f) frame =
      (visit settings progress frame).mapSink f := by
  rw [visit_eq_after, visit_eq_after]
  simp [Progress.after, Progress.mapSink, Host.mapSink, follows.addAll_eq]

omit [Sink σ] [Sink τ] in
theorem conclude_mapSink
    (progress : Progress σ)
    (outcome : Outcome) :
    conclude (progress.mapSink f) outcome =
      Prod.map id (Progress.mapSink f) (conclude progress outcome) := by
  cases outcome <;> rfl

/-- A scan for a receiver that follows another. -/
theorem scan_mapSink
    (follows : Sink.Follows f)
    (settings : PassSettings)
    (frames : List Frame)
    (progress : Progress σ) :
    scan settings frames (progress.mapSink f) =
      Prod.map id (Progress.mapSink f) (scan settings frames progress) := by
  induction frames generalizing progress with
  | nil =>
      exact conclude_mapSink progress _
  | cons frame rest inductionHypothesis =>
      have sameHalt :
          halted settings (progress.mapSink f).host =
            halted settings progress.host :=
        halted_mapSink follows settings progress.host
      rw [scan, scan, sameHalt]
      split
      · exact conclude_mapSink progress _
      · rw [visit_mapSink follows]
        exact inductionHypothesis _

/-- A pass for a receiver that follows another one leaves the same behind. -/
theorem run_mapSink
    (follows : Sink.Follows f)
    (settings : PassSettings)
    (root : Node)
    (host : Host σ) :
    run settings root (host.mapSink f) =
      (run settings root host).mapSink f := by
  have scanned :=
    scan_mapSink follows settings (framesOf none root) (Progress.start host)
  have fromStart :
      Progress.start (host.mapSink f) = (Progress.start host).mapSink f :=
    rfl
  rw [run_eq_scan, run_eq_scan, fromStart, scanned]
  rfl

end

/-! ## How far a pass has come -/

section

variable [Sink σ]

/--
A pass ends in the state after the visits that it reports.

The last event of its log says how it ended; all others are there before.
-/
theorem run_eq_standing
    (settings : PassSettings)
    (root : Node)
    (host : Host σ) :
    let result := run settings root host
    let visits := result.outcome.visited
    visits ≤ root.size ∧
      result.host = (standing settings root host visits).host ∧
      result.log =
        (standing settings root host visits).log.push
          result.outcome.event := by
  intro result visits
  have cut : result = _ := run_eq_cut settings root host
  cases found :
      (List.range root.size).find? fun visits =>
        halted settings (standing settings root host visits).host with
  | none =>
      rw [found] at cut
      have counted : visits = root.size := by
        rw [show visits = result.outcome.visited from rfl, cut]
        exact nodesVisited_standing settings root host (Nat.le_refl _)
      rw [counted, cut]
      exact ⟨Nat.le_refl _, rfl, rfl⟩
  | some visited =>
      rw [found] at cut
      have counted : visits = visited := by
        rw [show visits = result.outcome.visited from rfl, cut]
        rfl
      have inTree : visited < root.size :=
        List.mem_range.mp (List.mem_of_find?_eq_some found)
      rw [counted, cut]
      exact ⟨Nat.le_of_lt inTree, rfl, rfl⟩

/-- A pass that finishes has visited every node. -/
theorem stats_of_finished
    {settings : PassSettings}
    {root : Node}
    {host : Host σ}
    {stats : PassStats}
    (finished : (run settings root host).outcome = .finished stats) :
    stats = (standing settings root host root.size).stats := by
  rw [run_eq_cut] at finished
  split at finished
  · cases finished
  · cases finished
    rfl

/-- A pass into a quiet receiver ends in the state after all visits. -/
theorem run_eq_standing_of_quiet
    [Sink.Quiet σ]
    {settings : PassSettings}
    (root : Node)
    (host : Host σ)
    (flagDown : FlagDown settings host.flags) :
    let final := standing settings root host root.size
    run settings root host =
      {
        outcome := .finished final.stats
        host := final.host
        log := final.log.push (.finished final.stats)
      } := by
  intro final
  have ended : final = completed settings root host := by
    rw [completed, ← length_framesOf none root, ← foldl_visit]
    exact standing_size settings root host
  rw [run_of_quiet root host flagDown, ended]

end

end Pass

/-! ## The record of a receiver -/

/-- A receiver together with everything that it has been handed. -/
structure Recorded (σ : Type) where
  sink : σ
  received : Array Highlight

namespace Recorded

variable [Sink σ]

instance : Sink (Recorded σ) where
  add highlight recorded flags :=
    let (sink, flags) := Sink.add highlight recorded.sink flags
    ({ sink := sink, received := recorded.received.push highlight }, flags)
  shouldStop recorded := Sink.shouldStop recorded.sink

/-- Recording changes nothing for the receiver inside. -/
theorem follows_sink :
    Sink.Follows (Recorded.sink : Recorded σ → σ) where
  add_eq _ _ _ := rfl
  shouldStop_eq _ := rfl

/-- A record grows by what is handed over. -/
theorem toList_received_addAll
    (highlights : List Highlight)
    (recorded : Recorded σ)
    (flags : Flags) :
    (Sink.addAll highlights recorded flags).1.received.toList =
      recorded.received.toList ++ highlights := by
  induction highlights generalizing recorded flags with
  | nil =>
      simp [Sink.addAll]
  | cons highlight rest inductionHypothesis =>
      rw [Sink.addAll, inductionHypothesis]
      simp [Sink.add]

end Recorded

/-- The host with a new record around its receiver. -/
def Host.recorded
    (host : Host σ) :
    Host (Recorded σ) :=
  host.mapSink fun sink => { sink := sink, received := #[] }

namespace Pass

variable [Sink σ]

/-- A recorded pass is the pass itself, with a record. -/
theorem run_recorded
    (settings : PassSettings)
    (root : Node)
    (host : Host σ) :
    (run settings root host.recorded).mapSink Recorded.sink =
      run settings root host :=
  (run_mapSink Recorded.follows_sink settings root host.recorded).symm

/-- A pass hands over what the rules of the nodes it has visited ask for. -/
theorem received_run_recorded
    (settings : PassSettings)
    (root : Node)
    (host : Host σ) :
    let visits := (run settings root host).outcome.visited
    (run settings root host.recorded).host.sink.received.toList =
      highlightsOf (effectsBefore settings.rules root visits) := by
  intro visits
  -- The record has no say in when the pass ends.
  have sameOutcome :
      (run settings root host.recorded).outcome =
        (run settings root host).outcome :=
    congrArg Result.outcome (run_recorded settings root host)
  obtain ⟨enough, ends, _⟩ := run_eq_standing settings root host.recorded
  rw [sameOutcome] at enough ends
  rw [ends, standing_eq_after settings root host.recorded enough]
  exact Recorded.toList_received_addAll _ _ _

/-- A pass reports the mismatches that the rules of the nodes it has visited ask for. -/
theorem mismatches_run
    (settings : PassSettings)
    (root : Node)
    (host : Host σ) :
    let result := run settings root host
    let handed :=
      mismatchesOf
        (effectsBefore settings.rules root result.outcome.visited)
    (settings.reporting = .collect →
        result.host.collected.toList = host.collected.toList ++ handed) ∧
      (settings.reporting = .log →
        result.log.toList.filterMap Event.mismatch? = handed) := by
  intro result handed
  obtain ⟨enough, ends, logged⟩ := run_eq_standing settings root host
  have stands := standing_eq_after settings root host enough
  rw [stands] at ends logged
  constructor
  · intro collects
    rw [ends]
    simp [Progress.after, Progress.start, collects, handed, result]
  · intro logs
    rw [logged]
    simp [Progress.after, Progress.start, handed, result,
      Outcome.mismatch?_event, filterMap_mismatch?_events logs]

/-- A pass into an empty list reports what the rules ask for all over the tree. -/
theorem mismatches_run_rawHost
    (context : Context)
    (reporting : Reporting)
    (tree : Node) :
    let result := run (context.settings reporting) tree rawHost
    let handed :=
      mismatchesOf (effectsOf Rule.effects (framesOf none tree))
    (reporting = .collect → result.host.collected.toList = handed) ∧
      (reporting = .log →
        result.log.toList.filterMap Event.mismatch? = handed) := by
  intro result handed
  have visitedAll : result.outcome.visited = tree.size := by
    rw [(run_rawHost_reporting context reporting tree).1]
    rfl
  have applied :
      mismatchesOf
          (effectsBefore Rule.effects tree result.outcome.visited) =
        handed := by
    rw [visitedAll, effectsBefore_size]
  rw [← applied]
  exact mismatches_run (context.settings reporting) tree rawHost

end Pass

end ShaderTint
