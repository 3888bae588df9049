import Scriptlet.Number.Decimal

/-!
# JSON values and their texts

A value is written in one line, or with a line for each member and two spaces of indentation for each level. Members of an
object keep their order; `Json.sorted` puts them into the order of their keys.

Strings are written with the short escapes where there are some; other control characters are escaped by their code, and
every other character stands for itself.
-/

namespace Scriptlet

/-- The JSON values without parts. Numbers are natural numbers or finite doubles. -/
inductive Scalar where
  | null
  | bool (value : Bool)
  | natural (value : Nat)
  | double (value : Double) (finite : value.isFinite = true)
  | text (value : String)
  deriving DecidableEq, Repr

/-- JSON values. -/
inductive Json where
  | scalar (value : Scalar)
  | array (items : List Json)
  | object (members : List (String × Json))
  deriving Repr

namespace Json

/-- The value that stands for nothing. -/
abbrev null : Json := scalar .null

/-- A string. -/
abbrev text (value : String) : Json := scalar (.text value)

/-- Doubles are written plainly from 10 ^ (-5) up to 10 ^ 16 and else with a signed exponent; a plain whole number keeps a
zero after its point; of two decimals that are equally near the even one is written. -/
def doubleStyle : DecimalStyle := ⟨.even, fun power => -5 ≤ power ∧ power < 16, ".0"⟩

/-- The digits of the hexadecimal code of a control character. -/
def hexDigits (c : Char) : List Char := [Nat.digitChar (c.toNat / 16), Nat.digitChar (c.toNat % 16)]

/-- A character inside a string. -/
def escapeChar (c : Char) : List Char :=
  match c with
  | '"' => ['\\', '"']
  | '\\' => ['\\', '\\']
  | '\x08' => ['\\', 'b']
  | '\x0c' => ['\\', 'f']
  | '\n' => ['\\', 'n']
  | '\r' => ['\\', 'r']
  | '\t' => ['\\', 't']
  | c => if c.toNat < 0x20 then ['\\', 'u', '0', '0'] ++ hexDigits c else [c]

/-- A string in its quotes. -/
def quote (s : String) : String := "\"" ++ .ofList (s.toList.flatMap escapeChar) ++ "\""

/-- The text of a value without parts. -/
def scalarText : Scalar → String
  | .null => "null"
  | .bool true => "true"
  | .bool false => "false"
  | .natural value => toString value
  | .double value _ => doubleStyle.write value
  | .text value => quote value

/-- The two layouts of a text: all in one line without blanks, or with a line for each item and member. -/
inductive Layout where
  | line | lines
  deriving DecidableEq, Repr

/-- What stands in front of an item, a member or a closing bracket: a line feed and the indentation of a level, or nothing. -/
def Layout.newline : Layout → Nat → String
  | line, _ => ""
  | lines, level => "\n" ++ .ofList (List.replicate (2 * level) ' ')

/-- What stands between a key and its value. -/
def Layout.colon : Layout → String
  | line => ":"
  | lines => ": "

mutual

/-- The text of a value; `level` is the indentation of the line it starts on. -/
def writeAt (layout : Layout) (level : Nat) : Json → String
  | scalar value => scalarText value
  | array [] => "[]"
  | array items => "[" ++ writeItems layout (level + 1) items ++ layout.newline level ++ "]"
  | object [] => "\x7b\x7d"
  | object members => "\x7b" ++ writeMembers layout (level + 1) members ++ layout.newline level ++ "\x7d"

/-- Items with commas between them. -/
def writeItems (layout : Layout) (level : Nat) : List Json → String
  | [] => ""
  | [item] => layout.newline level ++ writeAt layout level item
  | item :: items => layout.newline level ++ writeAt layout level item ++ "," ++ writeItems layout level items

/-- Members with commas between them. -/
def writeMembers (layout : Layout) (level : Nat) : List (String × Json) → String
  | [] => ""
  | [(key, value)] => layout.newline level ++ quote key ++ layout.colon ++ writeAt layout level value
  | (key, value) :: members =>
    layout.newline level ++ quote key ++ layout.colon ++ writeAt layout level value ++ "," ++
      writeMembers layout level members

end

/-- The text of a value in one line, without blanks. -/
def compact (value : Json) : String := writeAt .line 0 value

/-- The text of a value with a line for each item and member. -/
def pretty (value : Json) : String := writeAt .lines 0 value

/-- Puts a member in front of the first one whose key is not smaller. -/
def insertMember (member : String × Json) : List (String × Json) → List (String × Json)
  | [] => [member]
  | first :: members => if member.1 ≤ first.1 then member :: first :: members else first :: insertMember member members

mutual

/-- A value with the members of each object in the order of their keys. -/
def sorted : Json → Json
  | scalar value => scalar value
  | array items => array (sortedItems items)
  | object members => object (sortedMembers members)

/-- The items, each sorted. -/
def sortedItems : List Json → List Json
  | [] => []
  | item :: items => item.sorted :: sortedItems items

/-- The members in the order of their keys, the value of each sorted. -/
def sortedMembers : List (String × Json) → List (String × Json)
  | [] => []
  | (key, value) :: members => insertMember (key, value.sorted) (sortedMembers members)

end

end Json

end Scriptlet
