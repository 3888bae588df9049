import Scriptlet.Token.Cursor

/-!
# Sessions: a cursor that is used step by step

A session keeps one cursor. A source can be loaded at any time and is then read from its front; before the first source the
cursor stands at the end of an empty one.
-/

namespace Scriptlet

/-- What a session can be asked to do. -/
inductive SessionStep where
  | load (source : String)
  | next
  deriving DecidableEq, Repr

/-- What a step gives: nothing for a loaded source; else a token, none at the end, or a fault. -/
inductive SessionAnswer where
  | loaded
  | pulled (result : Except LexFault (Option Token))

namespace Cursor

/-- The cursor of a session before its first step. -/
def idle : Cursor := ofSource ""

/-- The answer to a step, and the cursor after it. -/
def answer (c : Cursor) : SessionStep → SessionAnswer × Cursor
  | .load source => (.loaded, ofSource source)
  | .next =>
    let (result, c') := c.next
    (.pulled result, c')

/-- The answers to a list of steps, each with the cursor after it. -/
def session (c : Cursor) : List SessionStep → List (SessionAnswer × Cursor)
  | [] => []
  | step :: steps => c.answer step :: (c.answer step).2.session steps

end Cursor

end Scriptlet
