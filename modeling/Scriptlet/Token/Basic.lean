import Scriptlet.Text.Position

/-!
# Tokens and their kinds

What the grammar sees of a token. Keywords are written like names and told apart by their spelling; operators are grouped by
the level of the grammar that reads them.
-/

namespace Scriptlet

/-- The reserved words. -/
inductive Keyword where
  | letWord | ifWord | elseWord | trueWord | falseWord | nullWord | defWord | returnWord | whileWord | doWord | forWord
  deriving DecidableEq, Repr

namespace Keyword

/-- Every keyword, once. -/
def all : List Keyword :=
  [letWord, ifWord, elseWord, trueWord, falseWord, nullWord, defWord, returnWord, whileWord, doWord, forWord]

/-- How a keyword is spelled. -/
def text : Keyword → String
  | letWord => "let"
  | ifWord => "if"
  | elseWord => "else"
  | trueWord => "true"
  | falseWord => "false"
  | nullWord => "null"
  | defWord => "def"
  | returnWord => "return"
  | whileWord => "while"
  | doWord => "do"
  | forWord => "for"

/-- The keyword of a spelling. Case counts, and no part of a word is a keyword. -/
def ofText? (word : String) : Option Keyword := all.find? fun k => k.text = word

/-- The list of keywords is complete. -/
theorem mem_all (k : Keyword) : k ∈ all := by cases k <;> decide

/-- A word is read as a keyword exactly when it is spelled so. -/
theorem ofText?_eq_some_iff (word : String) (k : Keyword) : ofText? word = some k ↔ k.text = word := by
  constructor
  · intro h
    simpa using List.find?_some h
  · rintro rfl
    cases k <;> decide

end Keyword

/-- The kinds of tokens. -/
inductive TokenKind where
  | semicolon | leftBrace | rightBrace | leftParen | rightParen | comma
  | keyword (word : Keyword)
  | number | text | name
  | equality | assign | compoundAssign | additive | multiplicative | relational
  | logicalAnd | logicalOr | logicalNot
  deriving DecidableEq, Repr

namespace TokenKind

/-- The label of a kind in messages: the sign itself where a kind has one spelling, else a name in capitals. -/
def label : TokenKind → String
  | semicolon => ";"
  | leftBrace => "\x7b"
  | rightBrace => "\x7d"
  | leftParen => "("
  | rightParen => ")"
  | comma => ","
  | keyword word => word.text
  | number => "NUMBER"
  | text => "STRING"
  | name => "IDENTIFIER"
  | equality => "EQUALITY_OPERATOR"
  | assign => "SIMPLE_ASSIGN"
  | compoundAssign => "COMPLEX_ASSIGN"
  | additive => "ADDITIVE_OPERATOR"
  | multiplicative => "MULTIPLICATIVE_OPERATOR"
  | relational => "RELATIONAL_OPERATOR"
  | logicalAnd => "LOGICAL_AND"
  | logicalOr => "LOGICAL_OR"
  | logicalNot => "LOGICAL_NOT"

/-- The kinds that are an expression by themselves: numbers, strings, truth values and null. -/
def isLiteral : TokenKind → Bool
  | number | text | keyword .trueWord | keyword .falseWord | keyword .nullWord => true
  | _ => false

/-- The kinds of operators that assign. -/
def isAssignment : TokenKind → Bool
  | assign | compoundAssign => true
  | _ => false

/-- The kind of a word: its keyword if it is one, else a name. -/
def ofWord (word : String) : TokenKind :=
  match Keyword.ofText? word with
  | some k => keyword k
  | none => name

end TokenKind

/-- A token: its kind, its characters as they stand in the source, and where the first of them stands. -/
structure Token where
  kind : TokenKind
  text : String
  position : Position
  deriving DecidableEq, Repr

/-- What stops the scan of a source: a character at which no token starts. -/
structure LexFault where
  character : Char
  position : Position
  deriving DecidableEq, Repr

/-- The message of a stopped scan. -/
def LexFault.message (e : LexFault) : String := "Unexpected token: \"" ++ e.character.toString ++ "\""

end Scriptlet
