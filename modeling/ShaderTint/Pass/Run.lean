import ShaderTint.Pass.Event
import ShaderTint.Pass.Sink

namespace ShaderTint

/-!
# Classification passes

A pass visits the nodes of a tree in document order, applies the rule of each
and hands the effects to its host. Before each node it looks whether the flag
it watches is up or the receiver asks to stop; if so it ends there, between two
nodes. Pending nodes are kept in a list together with their parents, so the
depth of a tree costs no call stack.
-/

/-- What becomes of the mismatches that a pass records. -/
inductive Reporting where
  | discard
  | log
  | collect
  deriving DecidableEq

/-- What a pass shares with its host. -/
structure Host (σ : Type) where
  sink : σ
  flags : Flags
  /-- Collected mismatches, oldest first. -/
  collected : Array ShapeMismatch

/-- How a pass is run. -/
structure PassSettings where
  /-- The family whose flag interrupts the pass, if it watches one. -/
  watched : Option Nat
  trace : Bool
  reporting : Reporting
  /-- The rules that are applied. -/
  rules : RuleTable := Rule.effects

/-- Settings of a pass under a context. -/
def Context.settings
    (context : Context)
    (reporting : Reporting) :
    PassSettings where
  watched := some context.family
  trace := context.trace
  reporting := reporting

/-- Settings of a pass that nobody can interrupt from outside. -/
def PassSettings.alone
    (reporting : Reporting) :
    PassSettings where
  watched := none
  trace := false
  reporting := reporting

/-- How a pass ended. -/
inductive Outcome where
  | finished (stats : PassStats)
  | interrupted (visited : Nat)
  deriving DecidableEq

namespace Pass

/-- A node to visit, with the node it was reached from. -/
structure Frame where
  node : Node
  parent : Option Node

/-- The frames of a node's children. -/
def childFrames
    (parent : Node) :
    List Frame :=
  parent.children.map fun child =>
    { node := child, parent := some parent }

/-- The host, the counters and the log in the middle of a pass. -/
structure Progress (σ : Type) where
  host : Host σ
  stats : PassStats
  log : Array Event

/-- A pass that has not visited any node. -/
def Progress.start
    (host : Host σ) :
    Progress σ where
  host := host
  stats := PassStats.zero
  log := #[]

section

variable [Sink σ]

/-- Should the pass end before its next node? -/
def halted
    (settings : PassSettings)
    (host : Host σ) :
    Bool :=
  settings.watched.any host.flags.isRaised || Sink.shouldStop host.sink

/-- Hand one highlight to the receiver. -/
def emit
    (settings : PassSettings)
    (progress : Progress σ)
    (tag : Tag)
    (target : Node) :
    Progress σ :=
  let (sink, flags) :=
    Sink.add { span := target.span, tag := tag }
      progress.host.sink progress.host.flags
  {
    host := { progress.host with sink := sink, flags := flags }
    stats := { progress.stats with
      highlightsEmitted := progress.stats.highlightsEmitted + 1 }
    log :=
      if settings.trace then
        progress.log.push (.highlighted tag target.span target.kind)
      else
        progress.log
  }

/-- Count a mismatch and report it as the settings say. -/
def record
    (settings : PassSettings)
    (progress : Progress σ)
    (mismatch : ShapeMismatch) :
    Progress σ :=
  let stats := { progress.stats with
    mismatches := progress.stats.mismatches + 1 }
  match settings.reporting with
  | .discard => { progress with stats := stats }
  | .log =>
      { progress with
        stats := stats
        log := progress.log.push (.mismatched mismatch) }
  | .collect =>
      { progress with
        stats := stats
        host := { progress.host with
          collected := progress.host.collected.push mismatch } }

/-- Carry out one effect. -/
def perform
    (settings : PassSettings)
    (progress : Progress σ) :
    Effect → Progress σ
  | .emit tag target => emit settings progress tag target
  | .skip owner part =>
      { progress with
        log := progress.log.push (.skipped owner.kind owner.span part) }
  | .record mismatch => record settings progress mismatch

/-- Visit one node: count it and carry out the effects of its rule. -/
def visit
    (settings : PassSettings)
    (progress : Progress σ)
    (frame : Frame) :
    Progress σ :=
  (settings.rules frame.parent frame.node).foldl (perform settings)
    { progress with
      stats := { progress.stats with
        nodesVisited := progress.stats.nodesVisited + 1 } }

/-- End a pass, leaving its last event. -/
def conclude
    (progress : Progress σ) :
    Outcome → Outcome × Progress σ
  | .finished stats =>
      (.finished stats,
        { progress with log := progress.log.push (.finished stats) })
  | .interrupted visited =>
      (.interrupted visited,
        { progress with log := progress.log.push (.interrupted visited) })

/-- Visit pending nodes until none is left or the pass is to stop. -/
def walk
    (settings : PassSettings)
    (pending : List Frame)
    (progress : Progress σ) :
    Outcome × Progress σ :=
  match pending with
  | [] => conclude progress (.finished progress.stats)
  | frame :: rest =>
      if halted settings progress.host then
        conclude progress (.interrupted progress.stats.nodesVisited)
      else
        walk settings (childFrames frame.node ++ rest)
          (visit settings progress frame)
termination_by Node.sizeOfForest (pending.map (·.node))
decreasing_by
  simp only [childFrames, List.map_cons, List.map_append, List.map_map,
    Function.comp_def, List.map_id', Node.sizeOfForest,
    Node.sizeOfForest_append, Node.size_eq]
  omega

/-- What a pass leaves behind. -/
structure Result (σ : Type) where
  outcome : Outcome
  host : Host σ
  log : Array Event

/-- Run a pass over a tree. -/
def run
    (settings : PassSettings)
    (root : Node)
    (host : Host σ) :
    Result σ :=
  let (outcome, progress) :=
    walk settings [{ node := root, parent := none }] (Progress.start host)
  { outcome := outcome, host := progress.host, log := progress.log }

/--
Run a pass that nobody can interrupt from outside and that reports nothing.

If the receiver stopped it, the reason goes to the log.
-/
def runAlone
    (reporting : Reporting)
    (root : Node)
    (host : Host σ) :
    Result σ :=
  let result := run (PassSettings.alone reporting) root host
  match result.outcome with
  | .finished _ => result
  | .interrupted visited =>
      { result with log := result.log.push (.gaveUp visited) }

end

/-- A host with an empty plain list. -/
def rawHost : Host (Array Highlight) where
  sink := #[]
  flags := Flags.clear
  collected := #[]

/-- A host with an empty distinct collection. -/
def distinctHost : Host DistinctHighlights where
  sink := DistinctHighlights.empty
  flags := Flags.clear
  collected := #[]

end Pass

end ShaderTint
