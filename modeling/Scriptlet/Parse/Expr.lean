import Scriptlet.Parse.Step
import Scriptlet.Tree.Basic

/-!
# Expressions

Six levels of operators on two sides bind from the weakest, `||`, to the strongest, `*` and `/`, and all of them group to the
left. Assignment binds weaker and groups to the right; signs and `!` bind stronger. Parentheses only group.
-/

namespace Scriptlet

/-- The levels of operators on two sides, from the weakest to the strongest. -/
inductive Level where
  | or | and | equality | relational | additive | multiplicative
  deriving DecidableEq, Repr

namespace Level

/-- The kind of the operators of a level. -/
def kind : Level → TokenKind
  | or => .logicalOr
  | and => .logicalAnd
  | equality => .equality
  | relational => .relational
  | additive => .additive
  | multiplicative => .multiplicative

/-- The level that binds next stronger. -/
def tighter? : Level → Option Level
  | or => some and
  | and => some equality
  | equality => some relational
  | relational => some additive
  | additive => some multiplicative
  | multiplicative => none

/-- How many levels bind stronger. -/
def height : Level → Nat
  | or => 5
  | and => 4
  | equality => 3
  | relational => 2
  | additive => 1
  | multiplicative => 0

/-- The node that an operator of a level makes of its two sides. -/
def node? (level : Level) (text : String) : Option (Expr → Expr → Expr) :=
  match level with
  | or | and => (LogicalOp.ofText? text).map .logical
  | _ => (BinaryOp.ofText? text).map .binary

/-- The next stronger level is the next in height. -/
theorem height_of_tighter? {level next : Level} (h : level.tighter? = some next) : next.height + 1 = level.height := by
  cases level <;> cases h <;> rfl

/-- No level is higher than five. -/
theorem height_le (level : Level) : level.height ≤ 5 := by cases level <;> decide

end Level

namespace Parse

/-- The text of a string token without its quotes. -/
def unquote (text : String) : String := .ofList (text.toList.drop 1).dropLast

/-- The kind of the assignment operator at the front, if there is one. -/
def assignment? (ts : List Token) : Option TokenKind := (kind? ts).filter TokenKind.isAssignment

/-- The kind of the sign at the front, if there is one. -/
def sign? (ts : List Token) : Option TokenKind := (kind? ts).filter fun kind => kind = .additive ∨ kind = .logicalNot

/-- The name that is assigned to. -/
def target (position : Position) : Expr → Except ParseFault String
  | .name name => .ok name
  | _ => .error (.badTarget position)

/-- Takes a literal from the front: a string, a truth value, null or else a number. -/
def literal (stop : Option LexFault) (ts : List Token) : Outcome Expr ts :=
  match kind? ts with
  | some .text => expectAs stop .text (fun text => some (.text (unquote text))) ts
  | some (.keyword .trueWord) => expectAs stop (.keyword .trueWord) (fun _ => some (.bool true)) ts
  | some (.keyword .falseWord) => expectAs stop (.keyword .falseWord) (fun _ => some (.bool false)) ts
  | some (.keyword .nullWord) => expectAs stop (.keyword .nullWord) (fun _ => some .null) ts
  | _ => expectAs stop .number (fun text => (Double.ofDigits? text).map .number) ts

mutual

/-- Takes an expression from the front: an assignment, or what stands on the left of one. -/
def expression (stop : Option LexFault) (ts : List Token) : Outcome Expr ts := do
  let left ← binary stop .or ts
  match assignment? left.rest with
  | none => return left
  | some kind =>
    let op ← expectAs stop kind AssignOp.ofText? left.rest
    let name ← target (position ts) left.value
    have := Nat.lt_trans op.shorter left.shorter
    let value ← expression stop op.rest
    return ⟨.assign op.value name value.value, value.rest, Nat.lt_trans value.shorter this⟩
termination_by 16 * ts.length + 14
decreasing_by
  · have : Level.or.height = 5 := rfl
    omega
  · omega

/-- Takes operands of a level from the front, with operators of that level between them. -/
def binary (stop : Option LexFault) (level : Level) (ts : List Token) : Outcome Expr ts := do
  let first ← operand stop level ts
  have := first.shorter
  let all ← chain stop level first.value first.rest
  return ⟨all.value, all.rest, Nat.lt_of_lt_of_le all.shorter this⟩
termination_by 16 * ts.length + 2 * level.height + 3
decreasing_by
  · omega
  · have := level.height_le
    omega

/-- Takes operators of a level and their right sides from the front, as many as there are, and groups them to the left. -/
def chain (stop : Option LexFault) (level : Level) (left : Expr) (ts : List Token) :
    Except ParseFault (Parsed Expr (ts.length + 1)) := do
  if kind? ts = some level.kind then
    let node ← expectAs stop level.kind level.node? ts
    have := node.shorter
    let right ← operand stop level node.rest
    have := right.shorter
    let all ← chain stop level (node.value left right.value) right.rest
    return ⟨all.value, all.rest, by have := all.shorter; omega⟩
  else return ⟨left, ts, length_lt_succ ts⟩
termination_by 16 * ts.length + 2 * level.height + 3
decreasing_by
  · omega
  · omega

/-- Takes an operand of a level from the front: an expression of the next stronger level. -/
def operand (stop : Option LexFault) (level : Level) (ts : List Token) : Outcome Expr ts :=
  match h : level.tighter? with
  | some next =>
    have := Level.height_of_tighter? h
    binary stop next ts
  | none => unary stop ts
termination_by 16 * ts.length + 2 * level.height + 2

/-- Takes an operand with the signs in front of it from the front. -/
def unary (stop : Option LexFault) (ts : List Token) : Outcome Expr ts :=
  match sign? ts with
  | some kind => do
    let op ← expectAs stop kind UnaryOp.ofText? ts
    have := op.shorter
    let argument ← unary stop op.rest
    return ⟨.unary op.value argument.value, argument.rest, Nat.lt_trans argument.shorter this⟩
  | none => primary stop ts
termination_by 16 * ts.length + 1

/-- Takes a literal, an expression in parentheses or else a name from the front. -/
def primary (stop : Option LexFault) (ts : List Token) : Outcome Expr ts :=
  match kind? ts with
  | some .leftParen => do
    let opening ← expect stop .leftParen ts
    have := opening.shorter
    let inner ← expression stop opening.rest
    let closing ← expect stop .rightParen inner.rest
    return ⟨inner.value, closing.rest, by have := inner.shorter; have := closing.shorter; omega⟩
  | kind =>
    if kind.any TokenKind.isLiteral then literal stop ts else expectAs stop .name (fun text => some (.name text)) ts
termination_by 16 * ts.length

end

end Parse

end Scriptlet
