import CestWriter.Files.Node
import CestWriter.Files.Path

/-! A tree of files with a working directory, and what the system does on it when it is asked for a
path. Nobody lacks a permission. -/

namespace CestWriter

/-- The tree from its root, and the way to the working directory, which is a directory in it. -/
structure Disk where
  root : Node
  working : List String

namespace Disk

/-- Where relative and absolute paths begin. -/
def start (d : Disk) (path : String) : Except Refusal Place :=
  if Path.isAbsolute path then .ok (.top d.root) else (Place.top d.root).walk d.working

/-- The place that a path means. A slash at its end asks for a directory. -/
def find (d : Disk) (path : String) : Except Refusal Place := do
  Path.check path
  let p ← (← d.start path).walk (Path.names path)
  if Path.endsInSlash path ∧ ¬ p.node.isDirectory then throw .notADirectory else return p

def isDirectory (d : Disk) (path : String) : Bool :=
  match d.find path with
  | .ok p => p.node.isDirectory
  | .error _ => false

/-- Goes along a path up to its last name, which comes back with the place; none without a name. -/
def findLast (d : Disk) (path : String) : Except Refusal (Option (Place × String)) := do
  Path.check path
  let names := Path.names path
  let p ← (← d.start path).walk names.dropLast
  return names.getLast?.map fun last => (p, last)

/-- Makes a directory in an existing one. -/
def makeDir (d : Disk) (path : String) : Except Refusal Disk := do
  match ← d.findLast path with
  | none => throw .fileExists
  | some (p, last) =>
    match p.step last with
    | .ok _ => throw .fileExists
    | .error .noSuchFile => return { d with root := p.rootWith last (.directory []) }
    | .error e => throw e

/-- Writes to what a name of a directory stands for, which may be nothing yet. -/
def writeAt (d : Disk) (p : Place) (name text : String) : Except Refusal Disk :=
  match p.step name with
  | .ok ⟨.directory _, _⟩ => .error .isADirectory
  | .ok ⟨.sink, _⟩ | .ok ⟨.input, _⟩ => .ok d
  | .ok ⟨.file _, _⟩ | .error .noSuchFile => .ok { d with root := p.rootWith name (.file text) }
  | .error e => .error e

/-- Writes a file into an existing directory, in place of an old one. -/
def write (d : Disk) (path text : String) : Except Refusal Disk := do
  match ← d.findLast path with
  | none => throw .isADirectory
  | some (p, last) =>
    if p.node.isDirectory ∧ Path.endsInSlash path then throw .isADirectory
    else d.writeAt p last text

/-! ## Files of the working directory -/

/-- What a system has apart from its users' files. -/
def system : Node :=
  let dirs := ["bin", "boot", "dev", "etc", "home", "lib", "media", "mnt", "opt", "proc", "root", "run",
    "sbin", "srv", "sys", "tmp", "usr", "var"]
  let rest : List (List String × Node) := [
    (["dev", "null"], .sink), (["dev", "stdin"], .input),
    (["etc", "hostname"], .file "localhost\n"), (["etc", "hosts"], .file "127.0.0.1 localhost\n"),
    (["etc", "passwd"], .file "root:x:0:0:root:/root:/bin/sh\n")]
  (dirs.map (fun name => ([name], Node.directory [])) ++ rest).foldl
    (fun (n : Node) (names, new) => n.graft names new) (.directory [])

/-- A system whose working directory holds just the given files, in the directories that their
paths name. -/
def ofFiles (files : List (String × String)) : Disk :=
  let working := ["tmp", "cest-writer", "work"]
  let held := files.foldl (fun (n : Node) (path, text) => n.graft (Path.names path) (.file text))
    (.directory [])
  ⟨system.graft working held, working⟩

/-- The files below the working directory, by their paths from there. -/
def files (d : Disk) : List (String × String) :=
  match d.find "." with
  | .ok p => p.node.files.map fun (names, text) => ("/".intercalate names, text)
  | .error _ => []

/-- The files that an earlier disk does not hold with the same text. -/
def changes (before after : Disk) : List (String × String) :=
  let old := before.files
  after.files.filter fun f => !old.contains f

end Disk

end CestWriter
