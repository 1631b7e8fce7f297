import ShaderTint.Highlight.Basic
import ShaderTint.Json.Printer
import ShaderTint.Tree.Node

namespace ShaderTint

/-!
# Trees and highlights as JSON

A span is a pair of offsets. A node is an object with its kind, its span and,
unless there are none, its children; a highlight is an object with its span and
its tag.
-/

/-- A span as a pair of offsets. -/
def Span.toJson
    (span : Span) :
    Json :=
  .array [Json.ofNat span.start, Json.ofNat span.stop]

/-- A highlight as an object. -/
def Highlight.toJson
    (highlight : Highlight) :
    Json :=
  .object [("range", highlight.span.toJson),
    ("tag", .string highlight.tag.wire)]

namespace Node

mutual

/-- A tree as an object. -/
def toJson : Node → Json
  | ⟨kind, span, []⟩ =>
      .object [("kind", .string kind.wire), ("range", span.toJson)]
  | ⟨kind, span, child :: rest⟩ =>
      .object [("kind", .string kind.wire), ("range", span.toJson),
        ("children", .array (child.toJson :: forestToJson rest))]

/-- A list of trees as objects. -/
def forestToJson : List Node → List Json
  | [] => []
  | node :: rest => node.toJson :: forestToJson rest

end

end Node

end ShaderTint
