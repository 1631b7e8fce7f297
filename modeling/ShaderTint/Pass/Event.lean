import ShaderTint.Pass.Rule

namespace ShaderTint

/-!
# The log of a pass

A pass leaves events: what it highlighted (when tracing), which parts were
missing, which mismatches were reported to the log, and how it ended.
-/

/-- Counters of one pass. -/
structure PassStats where
  nodesVisited : Nat
  highlightsEmitted : Nat
  mismatches : Nat
  deriving DecidableEq

/-- Nothing counted yet. -/
def PassStats.zero : PassStats where
  nodesVisited := 0
  highlightsEmitted := 0
  mismatches := 0

/-- What a pass says when it is stopped before its end. -/
def interruptedMessage
    (visited : Nat) :
    String :=
  "Classification interrupted after " ++ toString visited ++ " nodes"

/-- How severe an event is. -/
inductive Level where
  | trace
  | debug
  | warn
  deriving DecidableEq

/-- The level in words. -/
def Level.text : Level → String
  | .trace => "TRACE"
  | .debug => "DEBUG"
  | .warn => "WARN"

/-- One entry of the log. -/
inductive Event where
  | highlighted (tag : Tag) (span : Span) (kind : Kind)
  | skipped (kind : Kind) (span : Span) (part : MissingPart)
  | mismatched (mismatch : ShapeMismatch)
  | finished (stats : PassStats)
  | interrupted (visited : Nat)
  /-- An entry point that reports nothing leaves the reason in the log. -/
  | gaveUp (visited : Nat)
  deriving DecidableEq

namespace Event

/-- Level of an event. -/
def level : Event → Level
  | .highlighted .. => .trace
  | .skipped .. => .trace
  | .mismatched _ => .warn
  | .finished _ => .debug
  | .interrupted _ => .debug
  | .gaveUp _ => .debug

/-- Message of an event. -/
def message : Event → String
  | .highlighted .. => "highlight"
  | .skipped .. => "missing sub-node, skipped"
  | .mismatched mismatch => mismatch.message
  | .finished _ => "classification pass finished"
  | .interrupted _ => "classification pass interrupted"
  | .gaveUp visited => interruptedMessage visited

/-- Is the event one that only tracing leaves? -/
def isHighlighted : Event → Bool
  | .highlighted .. => true
  | _ => false

end Event

end ShaderTint
