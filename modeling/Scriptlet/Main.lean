import Scriptlet.Command.Run

/-!
# The program

The command on the files and streams of the system.
-/

namespace Scriptlet.Command

/-- Why the system could not read a file. -/
def readFault : IO.Error → ReadFault
  | .noFileOrDirectory .. => .notFound
  | .inappropriateType _ code _ => if code = 21 then .isDirectory else .notDirectory
  | fault => .other fault.toString

/-- Reads a stream to its end. -/
partial def readToEnd (stream : IO.FS.Stream) (before : ByteArray) : IO ByteArray := do
  let bytes ← stream.read 65536
  if bytes.isEmpty then return before else readToEnd stream (before ++ bytes)

/-- The bytes of an input of the system. -/
def readInput : Input → IO (Except ReadFault ByteArray)
  | .standard => return .ok (← readToEnd (← IO.getStdin) .empty)
  | .file path => do
    try return .ok (← IO.FS.readBinFile path)
    catch fault => return .error (readFault fault)

end Scriptlet.Command

open Scriptlet in
/-- Runs the command on its arguments. -/
def main (args : List String) : IO UInt32 := do
  let result ← match Options.ofArgs args with
    | .error fault => pure (Exit.failure (Command.complaint fault.message))
    | .ok options => Command.finish options <$> Command.readInput options.input
  (← IO.getStdout).putStr result.stdout
  (← IO.getStderr).putStr result.stderr
  return result.code.toUInt32
