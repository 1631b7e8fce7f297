import ShaderTint.Kind
import ShaderTint.Tag
import ShaderTint.Wire.Fault

namespace ShaderTint.Wire

/-!
# Names on the wire

Kinds and tags are exchanged by name. A vocabulary lists the names of a type
and finds the value that a name stands for.
-/

/-- The names of the values of a type. -/
structure Vocabulary (α : Type) where
  names : List String
  find? : String → Option α

/-- The names of kinds. -/
def kinds : Vocabulary Kind where
  names := Kind.all.map Kind.wire
  find? := Kind.ofWire?

/-- The names of tags. -/
def tags : Vocabulary Tag where
  names := Tag.all.map Tag.wire
  find? := Tag.ofWire?

/-- The value that a name stands for. -/
def Vocabulary.find
    (vocabulary : Vocabulary α)
    (name : String) :
    Except DataFault α :=
  match vocabulary.find? name with
  | some value => .ok value
  | none => .error (.unknownVariant name vocabulary.names)

/-- A span with the given ends, when they are in order. -/
def spanOf
    (start stop : { offset : Nat // offset < offsetLimit }) :
    Except DataFault Span :=
  if ordered : start.val ≤ stop.val then
    .ok {
      start := start.val
      stop := stop.val
      start_le_stop := ordered
      stop_lt := stop.property
    }
  else
    .error (.invertedRange start.val stop.val)

/-- A whole number as a byte offset. -/
def offsetOf
    (value : Int) :
    Except DataFault { offset : Nat // offset < offsetLimit } :=
  match value with
  | .ofNat offset =>
      if small : offset < offsetLimit then
        .ok ⟨offset, small⟩
      else
        .error (.invalidValue (.integer value) .offset)
  | .negSucc _ => .error (.invalidValue (.integer value) .offset)

end ShaderTint.Wire
