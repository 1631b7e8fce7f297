import ShaderTint.Tree.Fault
import ShaderTint.Tree.Node

namespace ShaderTint

/-!
# The parts of a construct

Children are found by kind and position, never by count, so a tree in the
middle of an edit still has all the parts that are present. `Node.parts?` gives
a node of a structured kind together with its parts; other kinds have none.
-/

namespace Node

/-- First child in a type position. -/
def typeChild?
    (node : Node) :
    Option Node :=
  node.children.find? (·.kind.isType)

/-- Children that are identifiers. -/
def names
    (node : Node) :
    List Node :=
  node.childrenOfKind .identifier

/-- The first child, unless it is already an operator. -/
def operand?
    (node : Node) :
    Option Node :=
  node.children.head?.filter (!·.kind.isPostfixOperator)

/-- The operand, when it is a bare identifier. -/
def identifierOperand?
    (node : Node) :
    Option Node :=
  node.operand?.filter (·.kind == .identifier)

/-- The operators that a postfix expression chains. -/
def operators
    (node : Node) :
    List Node :=
  node.children.filter (·.kind.isPostfixOperator)

/-- The child right after the first child in a type position. -/
def afterType?
    (node : Node) :
    Option Node :=
  (node.children.dropWhile (!·.kind.isType))[1]?

/--
The name in a function header: what follows the return type.

A header without a return type, or with nothing after it, has no name. Anything
but an identifier in that place is a mismatch.
-/
def headerName
    (header : Node) :
    Except ShapeMismatch (Option Node) :=
  match header.afterType? with
  | none => .ok none
  | some found =>
      if found.kind = .identifier then
        .ok (some found)
      else
        .error {
          node := .functionHeader
          expected := .identifier
          found := found.kind
          span := found.span
        }

end Node

/-- A structured node seen through its parts. -/
inductive Parts where
  | fieldOperator (field : Option Node)
  | postfixExpression
      (operand : Option Node)
      (operators : List Node)
      (identifierOperand : Option Node)
  | callOperator
  | singleVariableDeclaration (type : Option Node)
  | variableDeclaration (type : Option Node) (names : List Node)
  | fieldDeclaration (content : Option Node)
  | structDeclaration (name : Option Node)
  | functionDeclaration (header : Option Node)
  | functionHeader
      (type : Option Node)
      (name : Except ShapeMismatch (Option Node))
  | builtInType
  | semantic

/-- The parts of a node of a structured kind. -/
def Node.parts?
    (node : Node) :
    Option Parts :=
  match node.kind with
  | .fieldOperator =>
      some (.fieldOperator (node.childOfKind? .identifier))
  | .postfixExpression =>
      some (.postfixExpression
        node.operand? node.operators node.identifierOperand?)
  | .callOperator => some .callOperator
  | .singleVariableDeclaration =>
      some (.singleVariableDeclaration node.typeChild?)
  | .variableDeclaration =>
      some (.variableDeclaration node.typeChild? node.names)
  | .fieldDeclaration =>
      some (.fieldDeclaration (node.childOfKind? .variableDeclaration))
  | .structDeclaration =>
      some (.structDeclaration (node.childOfKind? .identifier))
  | .functionDeclaration =>
      some (.functionDeclaration (node.childOfKind? .functionHeader))
  | .functionHeader =>
      some (.functionHeader node.typeChild? node.headerName)
  | .builtInType => some .builtInType
  | .semantic => some .semantic
  | _ => none

end ShaderTint
