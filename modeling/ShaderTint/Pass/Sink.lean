import ShaderTint.Highlight.Distinct
import ShaderTint.Pass.Cancellation

namespace ShaderTint

/-!
# Receivers of highlights

A pass only ever adds highlights. What becomes of them is up to the receiver,
any state with a `Sink` instance: it takes each highlight, may put interrupt
flags up or down while doing so, and may ask the pass to stop.

`Outlet` is the family of receivers that hosts combine: a plain list or a
distinct collection at the end, behind any number of budgets and tripwires.
-/

/-- A state that receives highlights. -/
class Sink (σ : Type) where
  /-- Take one highlight; the flags may change on the way. -/
  add : Highlight → σ → Flags → σ × Flags
  /-- Should the pass end before its next node? -/
  shouldStop : σ → Bool

instance : Sink (Array Highlight) where
  add highlight items flags := (items.push highlight, flags)
  shouldStop _ := false

instance : Sink DistinctHighlights where
  add highlight items flags := (items.insert highlight, flags)
  shouldStop _ := false

/-- A receiver that a host has put together. -/
inductive Outlet where
  /-- Keeps every highlight. -/
  | raw (items : Array Highlight)
  /-- Keeps each highlight once. -/
  | distinct (items : DistinctHighlights)
  /-- Passes on at most `remaining` more highlights, then asks to stop. -/
  | bounded (remaining : Nat) (inner : Outlet)
  /--
  Passes everything on, and puts up a family's flag when its count of
  highlights becomes `threshold`.
  -/
  | tripwire (threshold count family : Nat) (inner : Outlet)

namespace Outlet

/-- Take one highlight through the whole chain. -/
def add
    (highlight : Highlight) :
    Outlet → Flags → Outlet × Flags
  | .raw items, flags => (.raw (items.push highlight), flags)
  | .distinct items, flags => (.distinct (items.insert highlight), flags)
  | .bounded 0 inner, flags => (.bounded 0 inner, flags)
  | .bounded (remaining + 1) inner, flags =>
      let (inner, flags) := inner.add highlight flags
      (.bounded remaining inner, flags)
  | .tripwire threshold count family inner, flags =>
      let (inner, flags) := inner.add highlight flags
      let flags :=
        if count + 1 = threshold then flags.raise family else flags
      (.tripwire threshold (count + 1) family inner, flags)

/-- Any spent budget in the chain asks to stop. -/
def shouldStop : Outlet → Bool
  | .raw _ => false
  | .distinct _ => false
  | .bounded remaining inner => remaining == 0 || inner.shouldStop
  | .tripwire _ _ _ inner => inner.shouldStop

instance : Sink Outlet where
  add := Outlet.add
  shouldStop := Outlet.shouldStop

/-- What the receiver at the end of the chain holds, in order. -/
def content : Outlet → Array Highlight
  | .raw items => items
  | .distinct items => items.entries
  | .bounded _ inner => inner.content
  | .tripwire _ _ _ inner => inner.content

/-- The distinct collection at the end of the chain, if there is one. -/
def distinct? : Outlet → Option DistinctHighlights
  | .raw _ => none
  | .distinct items => some items
  | .bounded _ inner => inner.distinct?
  | .tripwire _ _ _ inner => inner.distinct?

end Outlet

end ShaderTint
