namespace ShaderTint

/-!
# Kinds of constructs

The constructs that a Cg front end reports. Each kind has a wire name, used
where trees are exchanged, and a name for people, used in messages.
-/

/-- What a tree node stands for. -/
inductive Kind where
  | file
  | fieldOperator
  | postfixExpression
  | callOperator
  | indexOperator
  | singleVariableDeclaration
  | variableDeclaration
  | initializer
  | builtInType
  | typeName
  | fieldDeclaration
  | structDeclaration
  | functionDeclaration
  | functionHeader
  | parameterList
  | semantic
  | identifier
  | block
  | expressionStatement
  | returnStatement
  | binaryExpression
  | literal
  | error
  deriving DecidableEq, Repr

namespace Kind

/-- Every kind, in the order in which messages list them. -/
def all : List Kind :=
  [.file, .fieldOperator, .postfixExpression, .callOperator, .indexOperator,
    .singleVariableDeclaration, .variableDeclaration, .initializer,
    .builtInType, .typeName, .fieldDeclaration, .structDeclaration,
    .functionDeclaration, .functionHeader, .parameterList, .semantic,
    .identifier, .block, .expressionStatement, .returnStatement,
    .binaryExpression, .literal, .error]

/-- The list of kinds leaves none out. -/
theorem mem_all
    (kind : Kind) :
    kind ∈ all := by
  cases kind <;> decide

/-- Name under which a kind is exchanged. -/
def wire : Kind → String
  | .file => "file"
  | .fieldOperator => "field_operator"
  | .postfixExpression => "postfix_expression"
  | .callOperator => "call_operator"
  | .indexOperator => "index_operator"
  | .singleVariableDeclaration => "single_variable_declaration"
  | .variableDeclaration => "variable_declaration"
  | .initializer => "initializer"
  | .builtInType => "built_in_type"
  | .typeName => "type_name"
  | .fieldDeclaration => "field_declaration"
  | .structDeclaration => "struct_declaration"
  | .functionDeclaration => "function_declaration"
  | .functionHeader => "function_header"
  | .parameterList => "parameter_list"
  | .semantic => "semantic"
  | .identifier => "identifier"
  | .block => "block"
  | .expressionStatement => "expression_statement"
  | .returnStatement => "return_statement"
  | .binaryExpression => "binary_expression"
  | .literal => "literal"
  | .error => "error"

/-- The kind with a given wire name. -/
def ofWire?
    (name : String) :
    Option Kind :=
  all.find? (·.wire == name)

/-- Every kind is found under its own wire name. -/
@[simp]
theorem ofWire?_wire
    (kind : Kind) :
    ofWire? kind.wire = some kind := by
  cases kind <;> decide +kernel

/-- A kind is only found under its own wire name. -/
theorem wire_of_ofWire?
    {name : String}
    {kind : Kind}
    (found : ofWire? name = some kind) :
    kind.wire = name := by
  simpa using List.find?_some found

/-- Name of a kind in messages. -/
def name : Kind → String
  | .file => "file"
  | .fieldOperator => "field operator"
  | .postfixExpression => "postfix expression"
  | .callOperator => "call operator"
  | .indexOperator => "index operator"
  | .singleVariableDeclaration => "single variable declaration"
  | .variableDeclaration => "variable declaration"
  | .initializer => "initializer"
  | .builtInType => "built-in type"
  | .typeName => "type name"
  | .fieldDeclaration => "field declaration"
  | .structDeclaration => "struct declaration"
  | .functionDeclaration => "function declaration"
  | .functionHeader => "function header"
  | .parameterList => "parameter list"
  | .semantic => "semantic"
  | .identifier => "identifier"
  | .block => "block"
  | .expressionStatement => "expression statement"
  | .returnStatement => "return statement"
  | .binaryExpression => "binary expression"
  | .literal => "literal"
  | .error => "error"

/-- Kinds that can stand in a type position. -/
def isType : Kind → Bool
  | .builtInType | .typeName => true
  | _ => false

/-- Kinds of operators that a postfix expression chains. -/
def isPostfixOperator : Kind → Bool
  | .fieldOperator | .callOperator | .indexOperator => true
  | _ => false

/-- Kinds whose nodes have named parts. -/
def structured : List Kind :=
  [.fieldOperator, .postfixExpression, .callOperator,
    .singleVariableDeclaration, .variableDeclaration, .fieldDeclaration,
    .structDeclaration, .functionDeclaration, .functionHeader, .builtInType,
    .semantic]

end Kind

end ShaderTint
