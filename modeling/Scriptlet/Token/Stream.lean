import Scriptlet.Token.Cursor

/-!
# Streams: all tokens of a source

A source gives its tokens in order up to its end, or up to a character at which no token starts.
-/

namespace Scriptlet

/-- The tokens of a source as far as they can be read, and what stopped the scan if it did not reach the end. -/
structure Stream where
  tokens : List Token
  fault : Option LexFault
  deriving DecidableEq, Repr

namespace Stream

/-- The tokens in front of a cursor. -/
def ofCursor (c : Cursor) : Stream :=
  match h : c.next with
  | (.error e, _) => ⟨[], some e⟩
  | (.ok none, _) => ⟨[], none⟩
  | (.ok (some t), c') =>
    have : c'.rest.length < c.rest.length := Cursor.next_shorter h
    let later := ofCursor c'
    ⟨t :: later.tokens, later.fault⟩
termination_by c.rest.length
decreasing_by exact this

/-- The tokens of a source. -/
def ofSource (source : String) : Stream := ofCursor (.ofSource source)

end Stream

/-- The tokens of a source, or the fault that stops the scan; no tokens are given with a fault. -/
def tokenize (source : String) : Except LexFault (List Token) :=
  let stream := Stream.ofSource source
  match stream.fault with
  | some e => .error e
  | none => .ok stream.tokens

/-- The listing of tokens: a line for each, its kind and its characters. -/
def Token.listing (tokens : List Token) : String :=
  String.join (tokens.map fun t => t.kind.label ++ " " ++ t.text ++ "\n")

end Scriptlet
