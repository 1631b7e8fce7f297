import ShaderTint.Highlight.Basic
import ShaderTint.Tree.Node
import ShaderTint.Wire.Vocabulary

namespace ShaderTint.Wire

/-!
# Decoding JSON values

A node is an object, or an array of its kind, span and perhaps children. Known
members of an object are looked at in the order of their names, the last of
several members with one name counts, and unknown members may hold anything.
-/

/-- How a value is described when something else was wanted. -/
def Found.ofJson : Json → Found
  | .null => .null
  | .bool value => .bool value
  | .number (.integer value) => .integer value
  | .number (.real value) => .real value
  | .string value => .string value
  | .array _ => .sequence
  | .object _ => .map

/-- The fault of a value where something else was wanted. -/
def mistyped
    (value : Json)
    (wanted : Wanted) :
    DataFault :=
  .invalidType (Found.ofJson value) wanted

/-- Decode a byte offset. -/
def offsetOfJson : Json →
    Except DataFault { offset : Nat // offset < offsetLimit }
  | .number (.integer value) => offsetOf value
  | other => .error (mistyped other .offset)

/-- Decode a span. -/
def spanOfJson : Json → Except DataFault Span
  | .array [] => .error (.invalidLength 0 .pair)
  | .array [start] => do
      let _ ← offsetOfJson start
      .error (.invalidLength 1 .pair)
  | .array (start :: stop :: rest) => do
      let start ← offsetOfJson start
      let stop ← offsetOfJson stop
      if rest.isEmpty then
        spanOf start stop
      else
        .error (.invalidLength (rest.length + 2) .fewerElements)
  | other => .error (mistyped other .pair)

/-- Decode a name of a vocabulary. -/
def variantOfJson
    (vocabulary : Vocabulary α) :
    Json → Except DataFault α
  | .string name => vocabulary.find name
  | .object [(name, value)] => do
      let found ← vocabulary.find name
      match value with
      | .null => return found
      | other => .error (mistyped other .unit)
  | .object _ => .error (.invalidValue .map .oneKeyMap)
  | other => .error (mistyped other .nameOrMap)

/-- Decode a member that may be absent. -/
def optionalMember
    (decode : Json → Except DataFault α) :
    Option Json → Except DataFault (Option α)
  | none => .ok none
  | some value => (decode value).map some

/-- A field that must be there. -/
def required
    (field : Field) :
    Option α → Except DataFault α
  | some value => .ok value
  | none => .error (.missingField field)

mutual

/-- Decode a tree. -/
def nodeOfJson
    (value : Json) :
    Except DataFault Node :=
  match value with
  | .object members => do
      let children ←
        match _found : Json.member? "children" members with
        | some list => childrenOfJson list
        | none => pure []
      let kind ←
        optionalMember (variantOfJson kinds) (Json.member? "kind" members)
      let span ← optionalMember spanOfJson (Json.member? "range" members)
      let kind ← required .kind kind
      let span ← required .range span
      return { kind := kind, span := span, children := children }
  | .array [] => .error (.invalidLength 0 .nodeElements)
  | .array [kind] => do
      let _ ← variantOfJson kinds kind
      .error (.invalidLength 1 .nodeElements)
  | .array [kind, span] => do
      let kind ← variantOfJson kinds kind
      let span ← spanOfJson span
      return { kind := kind, span := span, children := [] }
  | .array (kind :: span :: list :: rest) => do
      let kind ← variantOfJson kinds kind
      let span ← spanOfJson span
      let children ← childrenOfJson list
      if rest.isEmpty then
        return { kind := kind, span := span, children := children }
      else
        .error (.invalidLength (rest.length + 3) .fewerElements)
  | other => .error (mistyped other .node)
termination_by sizeOf value
decreasing_by
  · have smaller := Json.sizeOf_member? _found
    simp only [Json.object.sizeOf_spec]
    omega
  · simp only [Json.array.sizeOf_spec, List.cons.sizeOf_spec]
    omega

/-- Decode the children of a node. -/
def childrenOfJson
    (value : Json) :
    Except DataFault (List Node) :=
  match value with
  | .array items => nodesOfJson items
  | other => .error (mistyped other .children)
termination_by sizeOf value

/-- Decode a list of trees. -/
def nodesOfJson
    (items : List Json) :
    Except DataFault (List Node) :=
  match items with
  | [] => .ok []
  | item :: rest => do
      let node ← nodeOfJson item
      let nodes ← nodesOfJson rest
      return node :: nodes
termination_by sizeOf items

end

/-- Decode a highlight. -/
def highlightOfJson : Json → Except DataFault Highlight
  | .object members => do
      let span ← optionalMember spanOfJson (Json.member? "range" members)
      let tag ←
        optionalMember (variantOfJson tags) (Json.member? "tag" members)
      let span ← required .range span
      let tag ← required .tag tag
      return { span := span, tag := tag }
  | .array [] => .error (.invalidLength 0 .highlightElements)
  | .array [span] => do
      let _ ← spanOfJson span
      .error (.invalidLength 1 .highlightElements)
  | .array (span :: tag :: rest) => do
      let span ← spanOfJson span
      let tag ← variantOfJson tags tag
      if rest.isEmpty then
        return { span := span, tag := tag }
      else
        .error (.invalidLength (rest.length + 2) .fewerElements)
  | other => .error (mistyped other .highlight)

/-- Decode a list of highlights in order. -/
def highlightsOfJson : Json → Except DataFault (List Highlight)
  | .array items => items.mapM highlightOfJson
  | other => .error (mistyped other .children)

end ShaderTint.Wire
