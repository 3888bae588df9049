/-!
# Workspaces: the files a command can see

A workspace is a set of files, and a command starts in some directory. A name with a slash in front goes down from the root of
all directories, any other name from the directory of the start. Paths are followed part by part: a single dot stays, two dots
go up, and only the last part can name a file.
-/

namespace Scriptlet

/-- Why an input cannot be read as text. -/
inductive ReadFault where
  | notFound
  | notDirectory
  | isDirectory
  | notText
  | other (message : String)
  deriving DecidableEq, Repr

/-- The message of an input that cannot be read. -/
def ReadFault.message : ReadFault → String
  | notFound => "No such file or directory (os error 2)"
  | notDirectory => "Not a directory (os error 20)"
  | isDirectory => "Is a directory (os error 21)"
  | notText => "stream did not contain valid UTF-8"
  | other message => message

/-- What is read at each path: the bytes of a file, or why there are none. -/
abbrev FileReader : Type := String → Except ReadFault ByteArray

/-- Files by their names. A name that ends in a slash stands for a directory without files. -/
structure Workspace where
  files : List (String × ByteArray)

namespace Workspace

/-- The parts of a path. -/
def parts (path : String) : List String := (path.toList.splitOn '/').map String.ofList

/-- Whether a path goes down from the root. -/
def isAbsolute (path : String) : Bool := path.toList.head? = some '/'

/-- The place of a name: the directories from the root down to it. -/
def placeOf (start : List String) (name : String) : List String :=
  if isAbsolute name then (parts name).drop 1 else start ++ parts name

/-- The file at a place. -/
def file? (w : Workspace) (start place : List String) : Option ByteArray :=
  (w.files.find? fun f => placeOf start f.1 = place).map (·.2)

/-- Whether a place is a directory: it is on the way to the start, or some name lies below it. -/
def isDirectory (w : Workspace) (start place : List String) : Bool :=
  place.isPrefixOf start ||
    w.files.any fun f => place.isPrefixOf (placeOf start f.1) && place.length < (placeOf start f.1).length

/-- Follows the parts of a path from a directory. Nothing is above the root but the root. -/
def follow (w : Workspace) (start : List String) : List String → List String → Except ReadFault ByteArray
  | _, [] => .error .isDirectory
  | here, part :: later =>
    if part = "" ∨ part = "." then w.follow start here later
    else if part = ".." then w.follow start here.dropLast later
    else
      match w.file? start (here ++ [part]) with
      | some bytes => if later = [] then .ok bytes else .error .notDirectory
      | none => if w.isDirectory start (here ++ [part]) then w.follow start (here ++ [part]) later else .error .notFound

/-- The bytes of the file at a path, seen from a directory. -/
def read (w : Workspace) (start : List String) : FileReader := fun path =>
  if path = "" then .error .notFound
  else w.follow start (if isAbsolute path then [] else start) (parts path)

end Workspace

end Scriptlet
