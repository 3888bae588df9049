import Scriptlet.Parse.Fault
import Scriptlet.Text.Line

/-!
# Reports: a fault with the line it is in

A report has five rows: the message, the place, an empty gutter, the line of the source, and a caret under the column. A hint
follows after an empty row. A fault without a place is shown behind the last character of the source.
-/

namespace Scriptlet

namespace Report

/-- A number of spaces. -/
def spaces (n : Nat) : String := .ofList (List.replicate n ' ')

/-- A line number, right-aligned in three columns. -/
def lineNumber (line : Nat) : String := spaces (3 - (toString line).length) ++ toString line

/-- Where a fault is shown. -/
def place (source : String) (fault : ParseFault) : Position := fault.position?.getD (.endOf source)

/-- The rows of a report. -/
def rows (file source : String) (fault : ParseFault) : List String :=
  let spot := place source fault
  ["error[" ++ fault.code ++ "]: " ++ fault.message,
   "  --> " ++ file ++ ":" ++ spot.text,
   "   |",
   lineNumber spot.line ++ " | " ++ Text.line source spot.line,
   "   | " ++ spaces spot.column ++ "^"] ++
    match fault.help? with
    | some hint => ["", "help: " ++ hint]
    | none => []

/-- The text of a report: each row with a line feed after it. -/
def render (file source : String) (fault : ParseFault) : String :=
  String.join ((rows file source fault).map (· ++ "\n"))

end Report

end Scriptlet
