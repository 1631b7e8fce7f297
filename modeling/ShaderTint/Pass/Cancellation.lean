namespace ShaderTint

/-!
# Interrupting passes

A host runs passes under contexts. Contexts that were cloned from one another
form a family and share one interrupt flag; `Flags` holds the families whose
flag is up. A context also says whether its passes log every highlight.

Main statements: raising or lowering one family's flag changes that flag and no
other.
-/

/-- The families whose interrupt flag is up. -/
structure Flags where
  raised : List Nat
  deriving DecidableEq

namespace Flags

/-- No flag is up. -/
def clear : Flags where
  raised := []

/-- Is a family's flag up? -/
def isRaised
    (flags : Flags)
    (family : Nat) :
    Bool :=
  flags.raised.contains family

/-- Put a family's flag up. -/
def raise
    (flags : Flags)
    (family : Nat) :
    Flags :=
  if flags.isRaised family then
    flags
  else
    { raised := family :: flags.raised }

/-- Take a family's flag down. -/
def lower
    (flags : Flags)
    (family : Nat) :
    Flags where
  raised := flags.raised.filter (· != family)

/-- With all flags down, no family's flag is up. -/
@[simp]
theorem isRaised_clear
    (family : Nat) :
    clear.isRaised family = false := by
  simp [clear, isRaised]

/-- Raising a flag puts up that flag and no other. -/
@[simp]
theorem isRaised_raise
    (flags : Flags)
    (family other : Nat) :
    (flags.raise family).isRaised other =
      (other == family || flags.isRaised other) := by
  unfold raise
  split
  · next already =>
      by_cases same : other = family
      · simp [same, already]
      · simp [same]
  · by_cases same : other = family <;>
      simp [isRaised, same]

/-- Lowering a flag takes down that flag and no other. -/
@[simp]
theorem isRaised_lower
    (flags : Flags)
    (family other : Nat) :
    (flags.lower family).isRaised other =
      (other != family && flags.isRaised other) := by
  rw [Bool.eq_iff_iff]
  simp [lower, isRaised, and_comm]

end Flags

/-- A handle under which passes run. -/
structure Context where
  family : Nat
  trace : Bool
  deriving DecidableEq

end ShaderTint
