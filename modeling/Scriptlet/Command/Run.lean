import Scriptlet.Command.Options
import Scriptlet.Command.Workspace
import Scriptlet.Parse.Stmt
import Scriptlet.Report
import Scriptlet.Tree.ToJson
import Scriptlet.Tree.ToSExpr

/-!
# The command

The command reads one source and prints its tokens or its tree. Whatever goes wrong is told on the standard error, nothing is
printed then, and the exit code is 1.
-/

namespace Scriptlet

/-- What a command leaves behind: its exit code and what it wrote. -/
structure Exit where
  code : Nat
  stdout : String
  stderr : String
  deriving DecidableEq, Repr

namespace Exit

/-- A command that printed what it was asked for. -/
def success (text : String) : Exit := ⟨0, text, ""⟩

/-- A command that printed nothing and told why. -/
def failure (text : String) : Exit := ⟨1, "", text⟩

end Exit

namespace Command

/-- A message without a cause. -/
def complaint (message : String) : String := "Error: " ++ message ++ "\n"

/-- A message about what was being done, with its cause. -/
def complaintWithCause (message cause : String) : String := "Error: " ++ message ++ "\n\nCaused by:\n    " ++ cause ++ "\n"

/-- The text of a program in a format. Tokens are not a format of programs and are printed from the source. -/
def programText (options : Options) (program : Program) : String :=
  match options.format with
  | .sexpr => program.toSExpr.render
  | _ => if options.compact then program.toJson.compact else program.toJson.pretty

/-- What is printed for a source, or why nothing is. -/
def output (options : Options) (source : String) : Except ParseFault String :=
  match options.format with
  | .tokens => ((tokenize source).map Token.listing).mapError .lex
  | _ => (Program.parse source).map fun program => programText options program ++ "\n"

/-- The exit of a command whose input gave these bytes, or could not be read. -/
def finish (options : Options) (bytes : Except ReadFault ByteArray) : Exit :=
  match bytes with
  | .error fault => .failure (complaintWithCause options.input.reading fault.message)
  | .ok bytes =>
    match String.fromUTF8? bytes with
    | none => .failure (complaintWithCause options.input.reading ReadFault.notText.message)
    | some source =>
      match output options source with
      | .ok text => .success text
      | .error fault => .failure (Report.render options.input.name source fault)

/-- The bytes of an input. -/
def fetch (stdin : ByteArray) (read : FileReader) : Input → Except ReadFault ByteArray
  | .standard => .ok stdin
  | .file path => read path

/-- The exit of a command with these arguments and this standard input, where files are read like this. -/
def exit (args : List String) (stdin : ByteArray) (read : FileReader) : Exit :=
  match Options.ofArgs args with
  | .error fault => .failure (complaint fault.message)
  | .ok options => finish options (fetch stdin read options.input)

/-- The exit of a command in a workspace, started in a directory of its own if not in another one. -/
def run (args : List String) (stdin : ByteArray) (w : Workspace) (start : List String := ["start"]) : Exit :=
  exit args stdin (w.read start)

end Command

end Scriptlet
