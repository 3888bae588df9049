import Scriptlet.Token.Rule

/-!
# Cursors: reading a source token by token

A cursor stands between two lexemes of a source: it holds the characters that are still to be read and the position of the
first of them. Asking for the next token passes blanks and comments. A character at which no rule applies stops the cursor in
front of it, so that asking again gives the same answer.
-/

namespace Scriptlet

/-- A place in a source that is being read. -/
structure Cursor where
  rest : List Char
  position : Position
  deriving DecidableEq, Repr

namespace Cursor

/-- The cursor in front of a source. -/
def ofSource (source : String) : Cursor := ⟨source.toList, .start⟩

/-- Nothing is left to read, not even blanks. -/
def atEnd (c : Cursor) : Bool := c.rest.isEmpty

/-- Something is left to read, perhaps only blanks and comments. -/
def hasMore (c : Cursor) : Bool := 0 < c.rest.length

/-- The cursor behind a lexeme at its front. -/
def pass (c : Cursor) (lexeme : Lexeme) : Cursor := ⟨lexeme.rest, c.position.advance lexeme.chars⟩

/-- The next token, or none where only blanks and comments are left, and the cursor after it. -/
def next (c : Cursor) : Except LexFault (Option Token) × Cursor :=
  match c.rest with
  | [] => (.ok none, c)
  | front :: _ =>
    match hx : Lexeme.first? c.rest with
    | none => (.error ⟨front, c.position⟩, c)
    | some lexeme =>
      match lexeme.tokenKind? with
      | some kind => (.ok (some ⟨kind, .ofList lexeme.chars, c.position⟩), c.pass lexeme)
      | none =>
        have : lexeme.rest.length < c.rest.length := Lexeme.first?_shorter hx
        (c.pass lexeme).next
termination_by c.rest.length
decreasing_by exact this

/-- A token is taken out of the characters in front of the cursor. -/
theorem next_shorter {c c' : Cursor} {t : Token} (h : c.next = (.ok (some t), c')) : c'.rest.length < c.rest.length := by
  fun_induction next c with
  | case1 => cases h
  | case2 => cases h
  | case3 c _ _ _ lexeme hx =>
    cases h
    exact Lexeme.first?_shorter hx
  | case4 c _ _ _ lexeme hx _ _ ih => exact Nat.lt_trans (ih h) (Lexeme.first?_shorter hx)

end Cursor

end Scriptlet
