namespace ShaderTint

/-!
# Byte ranges

A shader source is addressed by 32-bit byte offsets. `Bounds` is a pair of such
offsets as a front end hands it over, possibly inverted; `Span` is a pair that
is known to be in order. A span is a half-open range: it covers its `start` and
stops before its `stop`.
-/

/-- One past the largest byte offset. -/
def offsetLimit : Nat := UInt32.size

/-- Two byte offsets in any order. -/
structure Bounds where
  start : Nat
  stop : Nat
  start_lt : start < offsetLimit
  stop_lt : stop < offsetLimit
  deriving DecidableEq

/-- A half-open byte range. -/
structure Span where
  start : Nat
  stop : Nat
  start_le_stop : start ≤ stop
  stop_lt : stop < offsetLimit
  deriving DecidableEq

/-- The usual text of a pair of offsets. -/
def rangeText
    (start stop : Nat) :
    String :=
  toString start ++ ".." ++ toString stop

/-- The usual text of bounds, inverted or not. -/
def Bounds.text
    (bounds : Bounds) :
    String :=
  rangeText bounds.start bounds.stop

namespace Span

/-- Two spans with the same ends are the same span. -/
@[ext]
theorem ext
    {left right : Span}
    (sameStart : left.start = right.start)
    (sameStop : left.stop = right.stop) :
    left = right := by
  cases left
  cases right
  simp_all

/-- The start of a span is a byte offset. -/
theorem start_lt
    (span : Span) :
    span.start < offsetLimit :=
  Nat.lt_of_le_of_lt span.start_le_stop span.stop_lt

/-- The span between two offsets that a test finds in order and in range. -/
def ofTested
    (start stop : Nat)
    (tested : (decide (start ≤ stop) && decide (stop < offsetLimit)) = true) :
    Span where
  start := start
  stop := stop
  start_le_stop := of_decide_eq_true (Bool.and_eq_true_iff.mp tested).1
  stop_lt := of_decide_eq_true (Bool.and_eq_true_iff.mp tested).2

/-- The span between two offsets, when they are in order. -/
def ofBounds?
    (bounds : Bounds) :
    Option Span :=
  if ordered : bounds.start ≤ bounds.stop then
    some {
      start := bounds.start
      stop := bounds.stop
      start_le_stop := ordered
      stop_lt := bounds.stop_lt
    }
  else
    none

/-- The ends of a span. -/
def bounds
    (span : Span) :
    Bounds where
  start := span.start
  stop := span.stop
  start_lt := span.start_lt
  stop_lt := span.stop_lt

/-- The empty span at the start of some bounds. -/
def emptyAt
    (bounds : Bounds) :
    Span where
  start := bounds.start
  stop := bounds.start
  start_le_stop := Nat.le_refl _
  stop_lt := bounds.start_lt

/-- The bounds of a span give the span back. -/
@[simp]
theorem ofBounds?_bounds
    (span : Span) :
    ofBounds? span.bounds = some span := by
  simp [ofBounds?, bounds, span.start_le_stop]

/-- Every byte of `inner`, and both its ends, lie in `outer`. -/
def Contains
    (outer inner : Span) :
    Prop :=
  outer.start ≤ inner.start ∧ inner.stop ≤ outer.stop

instance (outer inner : Span) : Decidable (outer.Contains inner) :=
  inferInstanceAs (Decidable (_ ∧ _))

/-- A span contains itself. -/
theorem Contains.refl
    (span : Span) :
    span.Contains span :=
  ⟨Nat.le_refl _, Nat.le_refl _⟩

/-- Containment goes down a chain of spans. -/
theorem Contains.trans
    {outer middle inner : Span}
    (outerMiddle : outer.Contains middle)
    (middleInner : middle.Contains inner) :
    outer.Contains inner :=
  ⟨Nat.le_trans outerMiddle.1 middleInner.1,
    Nat.le_trans middleInner.2 outerMiddle.2⟩

/-- The usual text of a span. -/
def text
    (span : Span) :
    String :=
  rangeText span.start span.stop

instance : Hashable Span where
  hash span := mixHash (hash span.start) (hash span.stop)

end Span

end ShaderTint
