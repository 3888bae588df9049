import Scriptlet.SExpr.Basic
import Scriptlet.Tree.Basic

/-!
# Trees as S-expressions

Operators and forms are the first items of lists. Lists of statements start with `begin` and leave empty statements out;
where exactly one statement stands, an empty one is an empty list of statements. What is absent is `null`, except an absent
`else` and an absent result, which are left out.
-/

namespace Scriptlet

namespace SExpr

/-- A list that starts with an atom. -/
def form (head : String) (items : List SExpr) : SExpr := list (atom head :: items)

end SExpr

/-- The first item of an assignment: its operator, or `set` where it only replaces. -/
def AssignOp.head : AssignOp → String
  | set => "set"
  | op => op.text

/-- An expression as an S-expression. -/
def Expr.toSExpr : Expr → SExpr
  | name id => .atom id
  | number value => .number value
  | text value => .text value
  | bool true => .atom "true"
  | bool false => .atom "false"
  | null => .atom "null"
  | unary op argument => .form op.text [argument.toSExpr]
  | binary op left right => .form op.text [left.toSExpr, right.toSExpr]
  | logical op left right => .form op.text [left.toSExpr, right.toSExpr]
  | assign op target value => .form op.head [.atom target, value.toSExpr]

/-- An expression as an S-expression, or `null` where there is none. -/
def Expr.optionToSExpr : Option Expr → SExpr
  | some expr => expr.toSExpr
  | none => .atom "null"

/-- A declared name as an S-expression. -/
def Declarator.toSExpr (d : Declarator) : SExpr := .form "var" [.atom d.name, Expr.optionToSExpr d.init]

/-- A declaration as an S-expression: by itself if it declares one name, else a list of such. -/
def Declarator.listToSExpr : List Declarator → SExpr
  | [d] => d.toSExpr
  | ds => .form "begin" (ds.map Declarator.toSExpr)

/-- The opening of a counting loop as an S-expression, or `null` where there is none. -/
def ForInit.optionToSExpr : Option ForInit → SExpr
  | some (declare declarators) => Declarator.listToSExpr declarators
  | some (eval expr) => expr.toSExpr
  | none => .atom "null"

mutual

/-- A statement where exactly one stands. -/
def Stmt.toSExpr : Stmt → SExpr
  | empty => .form "begin" []
  | block body => .form "begin" (listToSExpr body)
  | eval expr => expr.toSExpr
  | declare declarators => Declarator.listToSExpr declarators
  | ifThen test consequent => .form "if" [test.toSExpr, consequent.toSExpr]
  | ifElse test consequent alternate => .form "if" [test.toSExpr, consequent.toSExpr, alternate.toSExpr]
  | whileLoop test body => .form "while" [test.toSExpr, body.toSExpr]
  | doWhile body test => .form "do-while" [body.toSExpr, test.toSExpr]
  | forLoop init test update body =>
    .form "for" [ForInit.optionToSExpr init, Expr.optionToSExpr test, Expr.optionToSExpr update, body.toSExpr]
  | function name params body =>
    .form "def" [.atom name, .list (params.map .atom), .form "begin" (listToSExpr body)]
  | result (some value) => .form "return" [value.toSExpr]
  | result none => .form "return" []

/-- Statements in a list, without the empty ones. -/
def Stmt.listToSExpr : List Stmt → List SExpr
  | [] => []
  | empty :: stmts => listToSExpr stmts
  | stmt :: stmts => stmt.toSExpr :: listToSExpr stmts

end

/-- A program as an S-expression. -/
def Program.toSExpr (p : Program) : SExpr := .form "begin" (Stmt.listToSExpr p.body)

end Scriptlet
