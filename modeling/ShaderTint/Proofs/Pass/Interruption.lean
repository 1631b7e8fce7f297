import ShaderTint.Proofs.Pass.Recursion

namespace ShaderTint.Pass

/-!
# Where an interrupted pass ends

A pass looks for a reason to stop before every node and at no other time. The
reason may come from the highlights of the nodes before: a receiver may ask to
stop or put up a flag while it takes them. So the state of a pass is followed
from node to node, as it would be if nothing were ever a reason to stop
(`standing`), and the pass ends in the first of these states that is one.

Main statements: `scan_eq_cut` follows the scan of any list of frames, and
`run_cut_at_first_halt` says for every receiver where a pass over a tree ends and
what it has handed over by then.
-/

/-- What the rules of frames emit is what the table lists for them. -/
theorem emissionsOf_effectsOf
    (frames : List Frame) :
    emissionsOf (effectsOf Rule.effects frames) =
      frames.flatMap fun frame => Table.entries frame.parent frame.node := by
  simp only [effectsOf, emissionsOf, List.filterMap_flatMap,
    ← emissionsOf_effects]

/-- The rules of frames record what stands in the place of a function's name. -/
theorem mismatchesOf_effectsOf
    (frames : List Frame) :
    mismatchesOf (effectsOf Rule.effects frames) =
      frames.flatMap fun frame =>
        (Table.misnamed? frame.node).toList.map misnaming := by
  simp only [effectsOf, mismatchesOf_flatMap, mismatchesOf_effects]

section

variable [Sink σ]

/-- Where a pass stands when the rules of the first nodes of a tree have been applied. -/
def standing
    (settings : PassSettings)
    (root : Node)
    (host : Host σ)
    (visits : Nat) :
    Progress σ :=
  ((framesOf none root).take visits).foldl (visit settings)
    (Progress.start host)

/-- Is there a reason to stop once the first frames of a list have been visited? -/
def haltsAfter
    (settings : PassSettings)
    (frames : List Frame)
    (progress : Progress σ)
    (visits : Nat) :
    Bool :=
  halted settings
    ((frames.take visits).foldl (visit settings) progress).host

/-- The least number of visits after which a scan has a reason to stop. -/
def firstHalt?
    (settings : PassSettings)
    (frames : List Frame)
    (progress : Progress σ) :
    Option Nat :=
  (List.range frames.length).find? (haltsAfter settings frames progress)

/-- A reason to stop at once is the first one. -/
theorem firstHalt?_of_halted
    {settings : PassSettings}
    {progress : Progress σ}
    (stops : halted settings progress.host = true)
    (frame : Frame)
    (rest : List Frame) :
    firstHalt? settings (frame :: rest) progress = some 0 := by
  have atOnce : haltsAfter settings (frame :: rest) progress 0 = true :=
    stops
  rw [firstHalt?, List.length_cons, List.range_succ_eq_map,
    List.find?_cons_of_pos atOnce]

/-- Without a reason to stop at once, the first one comes after the first frame. -/
theorem firstHalt?_of_not_halted
    {settings : PassSettings}
    {progress : Progress σ}
    (goesOn : ¬ halted settings progress.host = true)
    (frame : Frame)
    (rest : List Frame) :
    firstHalt? settings (frame :: rest) progress =
      (firstHalt? settings rest (visit settings progress frame)).map
        Nat.succ := by
  have notAtOnce : ¬ haltsAfter settings (frame :: rest) progress 0 = true :=
    goesOn
  rw [firstHalt?, List.length_cons, List.range_succ_eq_map,
    List.find?_cons_of_neg notAtOnce, List.find?_map]
  rfl

/--
A scan ends in the first state that is a reason to stop.

When there is none among the states before its frames, it ends in the state after
the last of them; that one is never looked at.
-/
theorem scan_eq_cut
    (settings : PassSettings)
    (frames : List Frame)
    (progress : Progress σ) :
    scan settings frames progress =
      match firstHalt? settings frames progress with
      | some visits =>
          let final := (frames.take visits).foldl (visit settings) progress
          conclude final (.interrupted final.stats.nodesVisited)
      | none =>
          let final := frames.foldl (visit settings) progress
          conclude final (.finished final.stats) := by
  induction frames generalizing progress with
  | nil =>
      rfl
  | cons frame rest inductionHypothesis =>
      rw [scan]
      split
      · next stops =>
          rw [firstHalt?_of_halted stops]
          rfl
      · next goesOn =>
          rw [inductionHypothesis, firstHalt?_of_not_halted goesOn]
          cases firstHalt? settings rest (visit settings progress frame) <;>
            rfl

/-- What the rules of the first nodes of a tree ask for. -/
def effectsBefore
    (rules : RuleTable)
    (root : Node)
    (visits : Nat) :
    List Effect :=
  effectsOf rules ((framesOf none root).take visits)

/-- As many nodes as a tree has are all its nodes. -/
theorem effectsBefore_size
    (rules : RuleTable)
    (root : Node) :
    effectsBefore rules root root.size =
      effectsOf rules (framesOf none root) := by
  rw [effectsBefore, ← length_framesOf none root, List.take_length]

/-- A pass that has made some visits has done what the rules of these nodes ask for. -/
theorem standing_eq_after
    (settings : PassSettings)
    (root : Node)
    (host : Host σ)
    {visits : Nat}
    (enough : visits ≤ root.size) :
    standing settings root host visits =
      (Progress.start host).after settings visits
        (effectsBefore settings.rules root visits) := by
  have length : ((framesOf none root).take visits).length = visits := by
    rw [List.length_take, length_framesOf, Nat.min_eq_left enough]
  rw [standing, foldl_visit, length]
  rfl

/-- After as many visits as a tree has nodes, all its frames have been visited. -/
theorem standing_size
    (settings : PassSettings)
    (root : Node)
    (host : Host σ) :
    standing settings root host root.size =
      (framesOf none root).foldl (visit settings) (Progress.start host) := by
  rw [standing, ← length_framesOf none root, List.take_length]

/-- After some visits a pass has counted them. -/
theorem nodesVisited_standing
    (settings : PassSettings)
    (root : Node)
    (host : Host σ)
    {visits : Nat}
    (enough : visits ≤ root.size) :
    (standing settings root host visits).stats.nodesVisited = visits := by
  rw [standing_eq_after settings root host enough]
  exact Nat.zero_add visits

/-- A pass over a tree ends in the first state that is a reason to stop. -/
theorem run_eq_cut
    (settings : PassSettings)
    (root : Node)
    (host : Host σ) :
    let state := standing settings root host
    run settings root host =
      match (List.range root.size).find? fun visits =>
          halted settings (state visits).host with
      | some visited =>
          {
            outcome := .interrupted visited
            host := (state visited).host
            log := (state visited).log.push (.interrupted visited)
          }
      | none =>
          {
            outcome := .finished (state root.size).stats
            host := (state root.size).host
            log :=
              (state root.size).log.push
                (.finished (state root.size).stats)
          } := by
  intro state
  have search :
      firstHalt? settings (framesOf none root) (Progress.start host) =
        (List.range root.size).find? fun visits =>
          halted settings (state visits).host := by
    rw [firstHalt?, length_framesOf]
    rfl
  rw [run, walk_eq_scan, pendingFrames_singleton, scan_eq_cut, search]
  cases found : (List.range root.size).find? fun visits =>
      halted settings (state visits).host with
  | none =>
      simp only [state, standing_size]
      rfl
  | some visited =>
      have inTree : visited < root.size :=
        List.mem_range.mp (List.mem_of_find?_eq_some found)
      have counted : (state visited).stats.nodesVisited = visited :=
        nodesVisited_standing settings root host (Nat.le_of_lt inTree)
      change
        ({
            outcome := .interrupted (state visited).stats.nodesVisited
            host := (state visited).host
            log :=
              (state visited).log.push
                (.interrupted (state visited).stats.nodesVisited)
          } : Result σ) = _
      rw [counted]

/--
A pass is cut off between two nodes or not at all.

The nodes are taken up in the order in which a walk yields them. If the flag of
the context is up, or the receiver asks to stop, in one of the states before a
node, then the pass ends in the first such state and reports how many nodes it
has visited; otherwise it finishes in the state after the last node. In each of
these states the receiver and the diagnostics have got just what the rules of
the nodes visited so far ask for.
-/
theorem run_cut_at_first_halt
    (tree : Node)
    (context : Context)
    (reporting : Reporting)
    (host : Host σ) :
    let settings := context.settings reporting
    let state := standing settings tree host
    let stops := fun visits =>
      (state visits).host.flags.isRaised context.family ||
        Sink.shouldStop (state visits).host.sink
    let frames := framesOf none tree
    run settings tree host =
        (match (List.range tree.size).find? stops with
        | some visited =>
            {
              outcome := .interrupted visited
              host := (state visited).host
              log := (state visited).log.push (.interrupted visited)
            }
        | none =>
            {
              outcome := .finished (state tree.size).stats
              host := (state tree.size).host
              log :=
                (state tree.size).log.push
                  (.finished (state tree.size).stats)
            }) ∧
      frames.map (·.node) = tree.descendants.toList ∧
      ∀ visits ≤ tree.size,
        let emitted :=
          (frames.take visits).flatMap fun frame =>
            Table.entries frame.parent frame.node
        let mismatches :=
          mismatchesOf (effectsBefore settings.rules tree visits)
        (state visits).stats =
            {
              nodesVisited := visits
              highlightsEmitted := emitted.length
              mismatches := mismatches.length
            } ∧
          ((state visits).host.sink, (state visits).host.flags) =
            Sink.addAll (emitted.map highlightOf) host.sink host.flags ∧
          (reporting = .collect →
            (state visits).host.collected.toList =
              host.collected.toList ++ mismatches) ∧
          (reporting = .log →
            (state visits).log.toList.filterMap Event.mismatch? =
              mismatches) := by
  intro settings state stops frames
  refine ⟨run_eq_cut settings tree host, ?_, ?_⟩
  · rw [map_node_framesOf, Node.toList_descendants]
  · intro visits enough emitted mismatches
    have sameEmissions :
        emissionsOf (effectsBefore settings.rules tree visits) = emitted :=
      emissionsOf_effectsOf _
    have stands : state visits = _ :=
      standing_eq_after settings tree host enough
    rw [stands, ← sameEmissions]
    refine ⟨?_, rfl, ?_, ?_⟩
    · simp [Progress.after, Progress.start, PassStats.zero, mismatches]
    · intro collects
      simp [Progress.after, Progress.start, settings, Context.settings,
        collects, mismatches]
    · intro logs
      have settingsLog : settings.reporting = .log :=
        logs
      simp [Progress.after, Progress.start, mismatches,
        filterMap_mismatch?_events settingsLog]

end

end ShaderTint.Pass
