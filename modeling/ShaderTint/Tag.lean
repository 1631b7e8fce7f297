namespace ShaderTint

/-!
# Classification tags

What an identifier, or a reserved word, is highlighted as. Tags are ordered as
they are declared. A tag is exchanged under its wire name, shown under its
attribute id, and known to highlight queries under its capture name.
-/

/-- What a stretch of source is highlighted as. -/
inductive Tag where
  | keyword
  | typeIdentifier
  | fieldIdentifier
  | variableIdentifier
  | functionIdentifier
  deriving DecidableEq, Repr

namespace Tag

/-- Every tag in order. -/
def all : List Tag :=
  [.keyword, .typeIdentifier, .fieldIdentifier, .variableIdentifier,
    .functionIdentifier]

/-- The list of tags leaves none out. -/
theorem mem_all
    (tag : Tag) :
    tag ∈ all := by
  cases tag <;> decide

/-- Position of a tag in the order of tags. -/
def rank : Tag → Nat
  | .keyword => 0
  | .typeIdentifier => 1
  | .fieldIdentifier => 2
  | .variableIdentifier => 3
  | .functionIdentifier => 4

/-- Different tags have different positions. -/
theorem rank_injective
    {left right : Tag}
    (sameRank : left.rank = right.rank) :
    left = right := by
  cases left <;> cases right <;> simp_all [rank]

/-- Name under which a tag is exchanged. -/
def wire : Tag → String
  | .keyword => "keyword"
  | .typeIdentifier => "type_identifier"
  | .fieldIdentifier => "field_identifier"
  | .variableIdentifier => "variable_identifier"
  | .functionIdentifier => "function_identifier"

/-- The tag with a given wire name. -/
def ofWire?
    (name : String) :
    Option Tag :=
  all.find? (·.wire == name)

/-- Every tag is found under its own wire name. -/
@[simp]
theorem ofWire?_wire
    (tag : Tag) :
    ofWire? tag.wire = some tag := by
  cases tag <;> decide +kernel

/-- Attribute id of a tag in an editor's colour scheme. -/
def attributeId : Tag → String
  | .keyword => "CG_KEYWORD"
  | .typeIdentifier => "CG_TYPE_IDENTIFIER"
  | .fieldIdentifier => "CG_FIELD_IDENTIFIER"
  | .variableIdentifier => "CG_VARIABLE_IDENTIFIER"
  | .functionIdentifier => "CG_FUNCTION_IDENTIFIER"

/-- Capture name of a tag in a highlight query. -/
def capture : Tag → String
  | .keyword => "keyword"
  | .typeIdentifier => "type"
  | .fieldIdentifier => "property"
  | .variableIdentifier => "variable"
  | .functionIdentifier => "function"

/-- A text that is no attribute id. -/
structure UnknownTag where
  text : String
  deriving DecidableEq

/-- Names the unknown text. -/
def UnknownTag.message
    (unknown : UnknownTag) :
    String :=
  "unknown classification tag `" ++ unknown.text ++ "`"

/-- Read an attribute id. -/
def ofAttributeId
    (text : String) :
    Except UnknownTag Tag :=
  match all.find? (·.attributeId == text) with
  | some tag => .ok tag
  | none => .error { text := text }

/-- Every attribute id is read back as its tag. -/
@[simp]
theorem ofAttributeId_attributeId
    (tag : Tag) :
    ofAttributeId tag.attributeId = .ok tag := by
  have found :
      all.find? (·.attributeId == tag.attributeId) = some tag := by
    cases tag <;> decide +kernel
  simp [ofAttributeId, found]

/-- Tags that come after a given one. -/
def later
    (tag : Tag) :
    List Tag :=
  all.filter (tag.rank < ·.rank)

instance : Hashable Tag where
  hash tag := hash tag.rank

end Tag

end ShaderTint
