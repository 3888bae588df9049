/-!
# Options of the command line

The arguments are read in order and all of them before anything else is done. The last format given counts; at most one input
can be named, and a single dash names the standard input.
-/

namespace Scriptlet

/-- What is printed for a source. -/
inductive Format where
  | json | sexpr | tokens
  deriving DecidableEq, Repr

/-- The format of a name. -/
def Format.ofName? : String → Option Format
  | "json" => some json
  | "sexpr" => some sexpr
  | "tokens" => some tokens
  | _ => none

/-- What the arguments ask for. -/
structure Options where
  format : Format
  compact : Bool
  path : Option String
  deriving DecidableEq, Repr

/-- Why arguments are refused. -/
inductive ArgFault where
  | missingFormat (flag : String)
  | unknownFormat (name : String)
  | unknownFlag (flag : String)
  | secondInput
  deriving DecidableEq, Repr

/-- The message of refused arguments. -/
def ArgFault.message : ArgFault → String
  | missingFormat flag => "Missing format name after " ++ flag
  | unknownFormat name => "Unknown format '" ++ name ++ "' (expected json, sexpr or tokens)"
  | unknownFlag flag => "Unknown flag '" ++ flag ++ "'"
  | secondInput => "Only one input file is supported"

namespace Options

/-- Without arguments the tree is printed as JSON on many lines, and the standard input is read. -/
def initial : Options := ⟨.json, false, none⟩

/-- An argument that can only be a flag: it starts with a dash and has more than that. -/
def isFlag (arg : String) : Bool := arg.toList.head? = some '-' ∧ arg ≠ "-"

/-- The options after more arguments. -/
def extend (options : Options) : List String → Except ArgFault Options
  | [] => .ok options
  | arg :: args =>
    if arg = "--format" ∨ arg = "-f" then
      match args with
      | [] => .error (.missingFormat arg)
      | name :: args =>
        match Format.ofName? name with
        | none => .error (.unknownFormat name)
        | some format => extend ⟨format, options.compact, options.path⟩ args
    else if arg = "--compact" then extend ⟨options.format, true, options.path⟩ args
    else if isFlag arg then .error (.unknownFlag arg)
    else
      match options.path with
      | some _ => .error .secondInput
      | none => extend ⟨options.format, options.compact, some arg⟩ args

/-- The options that a list of arguments gives. -/
def ofArgs (args : List String) : Except ArgFault Options := initial.extend args

end Options

/-- Where a source comes from. -/
inductive Input where
  | standard
  | file (path : String)
  deriving DecidableEq, Repr

/-- The input that is asked for. -/
def Options.input (options : Options) : Input :=
  match options.path with
  | some path => if path = "-" then .standard else .file path
  | none => .standard

/-- The name of an input in reports. -/
def Input.name : Input → String
  | standard => "<stdin>"
  | file path => path

/-- What is being done while an input is read. -/
def Input.reading : Input → String
  | standard => "Reading stdin"
  | file path => "Reading " ++ path

end Scriptlet
