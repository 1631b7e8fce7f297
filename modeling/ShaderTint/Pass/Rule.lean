import ShaderTint.Tag
import ShaderTint.Tree.Parts

namespace ShaderTint

/-!
# Classification rules

A rule looks at one node, its parts and its parent, and lists what is to be
done: highlights to emit, missing parts to note, mismatches to record. Rules
never look at each other's effects, so a declaration and the nodes inside it
are classified independently.
-/

/-- A part that a rule looked for and did not find. -/
inductive MissingPart where
  | field
  | type
  | variableDeclaration
  | name
  | header
  | returnType
  deriving DecidableEq

/-- The missing part in words. -/
def MissingPart.text : MissingPart → String
  | .field => "field"
  | .type => "type"
  | .variableDeclaration => "variable declaration"
  | .name => "name"
  | .header => "header"
  | .returnType => "return type"

/-- One thing that a rule asks for. -/
inductive Effect where
  /-- Highlight the whole span of a node. -/
  | emit (tag : Tag) (target : Node)
  /-- Note that a node lacks a part. -/
  | skip (owner : Node) (part : MissingPart)
  /-- Record a part of the wrong kind. -/
  | record (mismatch : ShapeMismatch)

/-- What is to be done at a node, given the node's parent. -/
abbrev RuleTable :=
  Option Node → Node → List Effect

/-- Emit for a part that is present, or note that its owner lacks it. -/
def Effect.emitOrSkip
    (tag : Tag)
    (owner : Node)
    (part : MissingPart) :
    Option Node → Effect
  | some target => .emit tag target
  | none => .skip owner part

namespace Rule

/-- A call tags the identifier that it is applied to. -/
def callee
    (operand : Option Node) :
    List Effect :=
  operand.toList.map (.emit .functionIdentifier)

/--
A struct member tags its type and every declared name.

All or nothing: while a member is being typed its variable or type may be
missing, and then the member is skipped.
-/
def member
    (owner : Node) :
    Option Node → List Effect
  | none => [.skip owner .variableDeclaration]
  | some content =>
      match content.typeChild? with
      | none => [.skip owner .type]
      | some type =>
          .emit .typeIdentifier type ::
            content.names.map (.emit .fieldIdentifier)

/--
A function tags its return type, then its name.

The return type does not depend on the name: a name of the wrong kind is
recorded and only the name is lost.
-/
def function
    (owner : Node) :
    Option Node → List Effect
  | none => [.skip owner .header]
  | some header =>
      [Effect.emitOrSkip .typeIdentifier header .returnType header.typeChild?,
        match header.headerName with
        | .ok name =>
            Effect.emitOrSkip .functionIdentifier header .name name
        | .error mismatch => .record mismatch]

/-- The rules of Cg, one for each structured kind. -/
def effects : RuleTable := fun parent node =>
  match node.parts? with
  | some (.fieldOperator field) =>
      [Effect.emitOrSkip .fieldIdentifier node .field field]
  | some (.postfixExpression _ operators identifierOperand) =>
      match operators with
      | first :: _ =>
          if first.kind = .callOperator then callee identifierOperand else []
      | [] => []
  | some .callOperator =>
      match parent with
      | some expression =>
          if expression.kind = .postfixExpression then
            callee expression.identifierOperand?
          else
            []
      | none => []
  | some (.singleVariableDeclaration type) =>
      [Effect.emitOrSkip .typeIdentifier node .type type]
  | some (.variableDeclaration _ names) =>
      names.map (.emit .variableIdentifier)
  | some (.fieldDeclaration content) => member node content
  | some (.structDeclaration name) =>
      [Effect.emitOrSkip .typeIdentifier node .name name]
  | some (.functionDeclaration header) => function node header
  | some (.functionHeader _ _) => []
  | some .builtInType => [.emit .keyword node]
  | some .semantic => [.emit .keyword node]
  | none => []

end Rule

end ShaderTint
