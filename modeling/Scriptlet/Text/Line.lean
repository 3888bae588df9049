/-!
# Lines: a text cut at its line feeds

A line ends before a line feed, less one carriage return directly in front of it. What stands after the last line feed is a
line too unless it is empty, and keeps a carriage return at its end.
-/

namespace Scriptlet.Text

/-- A line that a line feed closed, without the carriage return in front of the line feed. -/
def dropReturn (line : List Char) : List Char :=
  if line.getLast? = some '\r' then line.dropLast else line

/-- The lines of what follows, where `before` holds the characters of the open line in reverse. -/
def linesFrom (before : List Char) : List Char → List (List Char)
  | [] => if before = [] then [] else [before.reverse]
  | c :: cs => if c = '\n' then dropReturn before.reverse :: linesFrom [] cs else linesFrom (c :: before) cs

/-- The lines of a text. -/
def lines (text : String) : List String := (linesFrom [] text.toList).map String.ofList

/-- The line of a number, counted from 1; 0 stands for the first line too, and a line past the end is empty. -/
def line (text : String) (number : Nat) : String := (lines text)[number - 1]?.getD ""

end Scriptlet.Text
