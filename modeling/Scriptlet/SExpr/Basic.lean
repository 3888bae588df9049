import Scriptlet.Number.Decimal

/-!
# S-expressions

Atoms, numbers, strings and lists of these. A list is written in parentheses with a space between its items; strings stand
in double quotes and nothing in them is escaped.
-/

namespace Scriptlet

/-- S-expressions. -/
inductive SExpr where
  | atom (text : String)
  | number (value : Double)
  | text (value : String)
  | list (items : List SExpr)
  deriving Repr

namespace SExpr

/-- Doubles are written without exponent, whole numbers without a point; of two decimals that are equally near the upper one
is written. -/
def doubleStyle : DecimalStyle := ⟨.upper, fun _ => true, ""⟩

/-- The text of a number. What is not a number has no sign. -/
def numberText (x : Double) : String :=
  if x.isNaN then "NaN"
  else if x.isFinite then doubleStyle.write x
  else if x.negative then "-inf" else "inf"

mutual

/-- The text of an S-expression. -/
def render : SExpr → String
  | atom s => s
  | number value => numberText value
  | text value => "\"" ++ value ++ "\""
  | list items => "(" ++ renderItems items ++ ")"

/-- Items with spaces between them. -/
def renderItems : List SExpr → String
  | [] => ""
  | [item] => item.render
  | item :: items => item.render ++ " " ++ renderItems items

end

/-! ## Equality, with numbers compared as numbers -/

mutual

/-- Two S-expressions are the same: equal item for item, numbers by `Double.same`. -/
def same : SExpr → SExpr → Bool
  | atom a, atom b => a == b
  | number x, number y => x.same y
  | text a, text b => a == b
  | list as, list bs => sameItems as bs
  | _, _ => false

/-- Two lists have the same items. -/
def sameItems : List SExpr → List SExpr → Bool
  | [], [] => true
  | a :: as, b :: bs => a.same b && sameItems as bs
  | _, _ => false

end

instance : BEq SExpr := ⟨same⟩

end SExpr

end Scriptlet
