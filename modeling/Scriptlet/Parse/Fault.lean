import Scriptlet.Token.Basic

/-!
# Faults: why a source is not a program

A fault is a cause with what is known of it; all wording is in the functions below.
-/

namespace Scriptlet

/-- Why a source is not a program. -/
inductive ParseFault where
  /-- No token starts at a character. -/
  | lex (fault : LexFault)
  /-- The source ends where a token of a kind has to stand. -/
  | endOfInput (expected : TokenKind)
  /-- A token stands where one of another kind has to stand. -/
  | unexpected (found : String) (expected : TokenKind) (position : Position)
  /-- Something other than a name is assigned to. -/
  | badTarget (position : Position)
  deriving DecidableEq, Repr

namespace ParseFault

/-- The message of a fault. -/
def message : ParseFault → String
  | lex fault => fault.message
  | endOfInput expected => "Unexpected end of input, expected: \"" ++ expected.label ++ "\""
  | unexpected found expected _ => "Unexpected token: \"" ++ found ++ "\", expected: \"" ++ expected.label ++ "\""
  | badTarget _ => "Invalid left-hand side in assignment expression"

/-- The code of a fault, which tells its cause and nothing else. -/
def code : ParseFault → String
  | lex _ => "E_LEX"
  | endOfInput _ => "E_UNEXPECTED_EOF"
  | unexpected _ _ _ => "E_UNEXPECTED_TOKEN"
  | badTarget _ => "E_ASSIGN_TARGET"

/-- Where a fault is. The end of the source is no place in it. -/
def position? : ParseFault → Option Position
  | lex fault => some fault.position
  | endOfInput _ => none
  | unexpected _ _ position => some position
  | badTarget position => some position

/-- A hint on how to mend a fault, where there is one. -/
def help? : ParseFault → Option String
  | endOfInput expected => some ("the source ended before a `" ++ expected.label ++ "` was found")
  | badTarget _ => some "only a plain variable name can be assigned to"
  | _ => none

end ParseFault

end Scriptlet
