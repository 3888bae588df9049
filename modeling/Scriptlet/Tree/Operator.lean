/-!
# Operators

The four families of operators with their spelling. A spelling may belong to several families: a plus is read as a sum or
as a sign, depending on where it stands.
-/

namespace Scriptlet

/-- What an assignment does: it replaces the value, or combines it with the old one. -/
inductive AssignOp where
  | set | add | subtract | multiply | divide
  deriving DecidableEq, Repr

/-- The operators that may leave their right side out of the evaluation. -/
inductive LogicalOp where
  | and | or
  deriving DecidableEq, Repr

/-- The operators on two values. -/
inductive BinaryOp where
  | add | subtract | multiply | divide | less | lessEqual | greater | greaterEqual | equal | notEqual
  deriving DecidableEq, Repr

/-- The operators in front of one value. -/
inductive UnaryOp where
  | plus | minus | not
  deriving DecidableEq, Repr

namespace AssignOp

/-- Every assignment operator, once. -/
def all : List AssignOp := [set, add, subtract, multiply, divide]

/-- How an assignment operator is spelled. -/
def text : AssignOp → String
  | set => "="
  | add => "+="
  | subtract => "-="
  | multiply => "*="
  | divide => "/="

/-- The assignment operator of a spelling. -/
def ofText? (s : String) : Option AssignOp := all.find? fun op => op.text = s

/-- An operator is found by its spelling. -/
theorem ofText?_text (op : AssignOp) : ofText? op.text = some op := by cases op <;> decide

end AssignOp

namespace LogicalOp

/-- Every logical operator, once. -/
def all : List LogicalOp := [and, or]

/-- How a logical operator is spelled. -/
def text : LogicalOp → String
  | and => "&&"
  | or => "||"

/-- The logical operator of a spelling. -/
def ofText? (s : String) : Option LogicalOp := all.find? fun op => op.text = s

/-- An operator is found by its spelling. -/
theorem ofText?_text (op : LogicalOp) : ofText? op.text = some op := by cases op <;> decide

end LogicalOp

namespace BinaryOp

/-- Every binary operator, once. -/
def all : List BinaryOp := [add, subtract, multiply, divide, less, lessEqual, greater, greaterEqual, equal, notEqual]

/-- How a binary operator is spelled. -/
def text : BinaryOp → String
  | add => "+"
  | subtract => "-"
  | multiply => "*"
  | divide => "/"
  | less => "<"
  | lessEqual => "<="
  | greater => ">"
  | greaterEqual => ">="
  | equal => "=="
  | notEqual => "!="

/-- The binary operator of a spelling. -/
def ofText? (s : String) : Option BinaryOp := all.find? fun op => op.text = s

/-- An operator is found by its spelling. -/
theorem ofText?_text (op : BinaryOp) : ofText? op.text = some op := by cases op <;> decide

end BinaryOp

namespace UnaryOp

/-- Every unary operator, once. -/
def all : List UnaryOp := [plus, minus, not]

/-- How a unary operator is spelled. -/
def text : UnaryOp → String
  | plus => "+"
  | minus => "-"
  | not => "!"

/-- The unary operator of a spelling. -/
def ofText? (s : String) : Option UnaryOp := all.find? fun op => op.text = s

/-- An operator is found by its spelling. -/
theorem ofText?_text (op : UnaryOp) : ofText? op.text = some op := by cases op <;> decide

end UnaryOp

end Scriptlet
