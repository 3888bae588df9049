import Scriptlet.Json.Basic
import Scriptlet.Tree.Basic

/-!
# Trees as JSON

Each node is an object whose first member names its form. What is absent is null, so that a node of one form has the same
members everywhere.
-/

namespace Scriptlet

/-- A node: its form, then its members. -/
def Json.node (form : String) (members : List (String × Json)) : Json := .object (("type", .text form) :: members)

/-- A number: null if it is not finite, in full if it is a natural number below 2 ^ 64, else as a double. -/
def Double.toJson (x : Double) : Json :=
  if h : x.isFinite = true then
    match x.natural? with
    | some n => if n < 2 ^ 64 then .scalar (.natural n) else .scalar (.double x h)
    | none => .scalar (.double x h)
  else .null

/-- A name as a node. -/
def nameToJson (name : String) : Json := .node "Identifier" [("name", .text name)]

/-- An expression as a node. -/
def Expr.toJson : Expr → Json
  | name id => nameToJson id
  | number value => .node "NumericLiteral" [("value", value.toJson)]
  | text value => .node "StringLiteral" [("value", .text value)]
  | bool value => .node "BooleanLiteral" [("value", .scalar (.bool value))]
  | null => .node "NullLiteral" []
  | unary op argument => .node "UnaryExpression" [("operator", .text op.text), ("argument", argument.toJson)]
  | binary op left right =>
    .node "BinaryExpression" [("operator", .text op.text), ("left", left.toJson), ("right", right.toJson)]
  | logical op left right =>
    .node "LogicalExpression" [("operator", .text op.text), ("left", left.toJson), ("right", right.toJson)]
  | assign op target value =>
    .node "AssignmentExpression" [("operator", .text op.text), ("left", nameToJson target), ("right", value.toJson)]

/-- An expression as a node, or null where there is none. -/
def Expr.optionToJson : Option Expr → Json
  | some expr => expr.toJson
  | none => .null

/-- A declared name as a node. -/
def Declarator.toJson (d : Declarator) : Json :=
  .node "VariableDeclaration" [("id", nameToJson d.name), ("init", Expr.optionToJson d.init)]

/-- A declaration as a node. -/
def Declarator.listToJson (declarators : List Declarator) : Json :=
  .node "VariableStatement" [("declarations", .array (declarators.map Declarator.toJson))]

/-- The opening of a counting loop as a node, or null where there is none. -/
def ForInit.optionToJson : Option ForInit → Json
  | some (declare declarators) => Declarator.listToJson declarators
  | some (eval expr) => expr.toJson
  | none => .null

mutual

/-- A statement as a node. -/
def Stmt.toJson : Stmt → Json
  | empty => .node "EmptyStatement" []
  | block body => .node "BlockStatement" [("body", .array (listToJson body))]
  | eval expr => .node "ExpressionStatement" [("expression", expr.toJson)]
  | declare declarators => Declarator.listToJson declarators
  | ifThen test consequent =>
    .node "IfStatement" [("test", test.toJson), ("consequent", consequent.toJson), ("alternate", .null)]
  | ifElse test consequent alternate =>
    .node "IfStatement" [("test", test.toJson), ("consequent", consequent.toJson), ("alternate", alternate.toJson)]
  | whileLoop test body => .node "WhileStatement" [("test", test.toJson), ("body", body.toJson)]
  | doWhile body test => .node "DoWhileStatement" [("body", body.toJson), ("test", test.toJson)]
  | forLoop init test update body =>
    .node "ForStatement" [("init", ForInit.optionToJson init), ("test", Expr.optionToJson test),
      ("update", Expr.optionToJson update), ("body", body.toJson)]
  | function name params body =>
    .node "FunctionDeclaration" [("name", nameToJson name), ("params", .array (params.map nameToJson)),
      ("body", .node "BlockStatement" [("body", .array (listToJson body))])]
  | result value => .node "ReturnStatement" [("argument", Expr.optionToJson value)]

/-- Statements as nodes. -/
def Stmt.listToJson : List Stmt → List Json
  | [] => []
  | stmt :: stmts => stmt.toJson :: listToJson stmts

end

/-- A program as a node. -/
def Program.toJson (p : Program) : Json := .node "Program" [("body", .array (Stmt.listToJson p.body))]

end Scriptlet
