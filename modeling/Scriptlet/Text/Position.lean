/-!
# Positions: where a character of a text stands

Lines are counted from 1 and columns from 0, in characters. Only a line feed ends a line; every other character, a carriage
return included, moves one column on.
-/

namespace Scriptlet

/-- A place in a text. -/
structure Position where
  line : Nat
  column : Nat
  deriving DecidableEq, Repr

namespace Position

/-- The place of the first character of a text. -/
def start : Position := ⟨1, 0⟩

/-- The place after one character. -/
def step (p : Position) (c : Char) : Position :=
  if c = '\n' then ⟨p.line + 1, 0⟩ else ⟨p.line, p.column + 1⟩

/-- The place after a run of characters. -/
def advance (p : Position) (cs : List Char) : Position := cs.foldl step p

/-- The place after the last character of a text. -/
def endOf (text : String) : Position := start.advance text.toList

/-- Positions in the order of reading: by line, then by column. -/
def Before (p q : Position) : Prop := p.line < q.line ∨ (p.line = q.line ∧ p.column < q.column)

instance (p q : Position) : Decidable (p.Before q) := inferInstanceAs (Decidable (_ ∨ _))

/-- A position as a reader sees it: both numbers from 1, with a colon between them. -/
def text (p : Position) : String := toString p.line ++ ":" ++ toString (p.column + 1)

/-- Nothing is passed by an empty run. -/
@[simp] theorem advance_nil (p : Position) : p.advance [] = p := rfl

/-- A run is passed one character after the other. -/
@[simp] theorem advance_cons (p : Position) (c : Char) (cs : List Char) : p.advance (c :: cs) = (p.step c).advance cs := rfl

/-- Two runs are passed one after the other. -/
theorem advance_append (p : Position) (as bs : List Char) : p.advance (as ++ bs) = (p.advance as).advance bs :=
  List.foldl_append

end Position

end Scriptlet
