import Scriptlet.Number.Double
import Scriptlet.Tree.Operator

/-!
# Trees: the programs of the language

A program is a list of statements. Parentheses leave no trace in a tree; the shape of an expression says what they said.
-/

namespace Scriptlet

/-- Expressions. Only a name can be assigned to. -/
inductive Expr where
  | name (name : String)
  | number (value : Double)
  | text (value : String)
  | bool (value : Bool)
  | null
  | unary (op : UnaryOp) (argument : Expr)
  | binary (op : BinaryOp) (left right : Expr)
  | logical (op : LogicalOp) (left right : Expr)
  | assign (op : AssignOp) (target : String) (value : Expr)
  deriving DecidableEq, Repr

/-- A declared name, with its first value if it is given one. -/
structure Declarator where
  name : String
  init : Option Expr
  deriving DecidableEq, Repr

/-- What a counting loop does before its first round. -/
inductive ForInit where
  | declare (declarators : List Declarator)
  | eval (expr : Expr)
  deriving DecidableEq, Repr

/-- Statements. -/
inductive Stmt where
  | empty
  | block (body : List Stmt)
  | eval (expr : Expr)
  | declare (declarators : List Declarator)
  | ifThen (test : Expr) (consequent : Stmt)
  | ifElse (test : Expr) (consequent alternate : Stmt)
  | whileLoop (test : Expr) (body : Stmt)
  | doWhile (body : Stmt) (test : Expr)
  | forLoop (init : Option ForInit) (test update : Option Expr) (body : Stmt)
  | function (name : String) (params : List String) (body : List Stmt)
  | result (value : Option Expr)
  deriving Repr

/-- A whole source. -/
structure Program where
  body : List Stmt
  deriving Repr

/-! ## Equality, with numbers compared as numbers -/

/-- Two expressions are the same: equal node for node, numbers by `Double.same`. -/
def Expr.same : Expr → Expr → Bool
  | name a, name b => a == b
  | number x, number y => x.same y
  | text a, text b => a == b
  | bool a, bool b => a == b
  | null, null => true
  | unary p a, unary q b => p == q && a.same b
  | binary p a b, binary q c d => p == q && a.same c && b.same d
  | logical p a b, logical q c d => p == q && a.same c && b.same d
  | assign p a v, assign q b w => p == q && a == b && v.same w
  | _, _ => false

/-- Two optional values are both absent, or both there and the same. -/
def sameOption {α : Type} (same : α → α → Bool) : Option α → Option α → Bool
  | none, none => true
  | some a, some b => same a b
  | _, _ => false

/-- Two lists have the same length and the same elements. -/
def sameList {α : Type} (same : α → α → Bool) : List α → List α → Bool
  | [], [] => true
  | a :: as, b :: bs => same a b && sameList same as bs
  | _, _ => false

/-- Two declarators are the same. -/
def Declarator.same (a b : Declarator) : Bool := a.name == b.name && sameOption Expr.same a.init b.init

/-- Two loop openings are the same. -/
def ForInit.same : ForInit → ForInit → Bool
  | declare as, declare bs => sameList Declarator.same as bs
  | eval a, eval b => a.same b
  | _, _ => false

mutual

/-- Two statements are the same: equal node for node, numbers by `Double.same`. -/
def Stmt.same : Stmt → Stmt → Bool
  | .empty, .empty => true
  | .block as, .block bs => Stmt.sameAll as bs
  | .eval a, .eval b => a.same b
  | .declare as, .declare bs => sameList Declarator.same as bs
  | .ifThen s a, .ifThen t b => s.same t && a.same b
  | .ifElse s a b, .ifElse t c d => s.same t && a.same c && b.same d
  | .whileLoop s a, .whileLoop t b => s.same t && a.same b
  | .doWhile a s, .doWhile b t => a.same b && s.same t
  | .forLoop i s u a, .forLoop j t v b =>
    sameOption ForInit.same i j && sameOption Expr.same s t && sameOption Expr.same u v && a.same b
  | .function f ps as, .function g qs bs => f == g && ps == qs && Stmt.sameAll as bs
  | .result a, .result b => sameOption Expr.same a b
  | _, _ => false

/-- Two lists of statements are the same. -/
def Stmt.sameAll : List Stmt → List Stmt → Bool
  | [], [] => true
  | a :: as, b :: bs => a.same b && Stmt.sameAll as bs
  | _, _ => false

end

instance : BEq Program := ⟨fun p q => Stmt.sameAll p.body q.body⟩

end Scriptlet
