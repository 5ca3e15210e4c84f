import CestWriter.Files.Refusal
import CestWriter.Text.Cut

/-! Paths as text: names with slashes between them. -/

namespace CestWriter.Path

/-- A path from the root, which begins with a slash. -/
def isAbsolute (path : String) : Bool :=
  Text.startsWith "/" path

def endsInSlash (path : String) : Bool :=
  path.toList.getLast? == some '/'

/-- The names between the slashes. Slashes in a row count as one. -/
def names (path : String) : List String :=
  (Text.split '/' path).filter (· ≠ "")

/-- The names of a path without the single dots, which stand for no step. Only one at the start of a
relative path stays: the path of dots alone means the working directory, not nothing. -/
def components (path : String) : List String :=
  let steps (ns : List String) : List String := ns.filter (· ≠ ".")
  match names path with
  | "." :: rest => if isAbsolute path then steps rest else "." :: steps rest
  | ns => steps ns

/-- A single dash stands for the standard input, however it is written as a relative path. -/
def isDash (path : String) : Bool :=
  !isAbsolute path && components path == ["-"]

/-- A path that has nothing above it: the root, or no path at all. -/
def isTop (path : String) : Bool :=
  components path == []

/-- The paths of the directories on the way to a path, nearest first. -/
def parents (path : String) : List String :=
  let cs := components path
  let lead := if isAbsolute path then "/" else ""
  ((List.range cs.length).drop 1).reverse.map fun n => lead ++ "/".intercalate (cs.take n)

/-- A path seen from a directory. -/
def join (dir path : String) : String :=
  if isAbsolute path then path
  else if dir.isEmpty || endsInSlash dir then dir ++ path
  else dir ++ "/" ++ path

/-- A path is shorter than this in UTF-8 bytes. -/
def limit : Nat := 4096

/-- Refuses a text that is no path before anything is looked up. -/
def check (path : String) : Except Refusal Unit :=
  if path.toList.contains '\x00' then .error .nullInPath
  else if path.isEmpty then .error .noSuchFile
  else if limit ≤ path.utf8ByteSize then .error .nameTooLong
  else .ok ()

end CestWriter.Path
