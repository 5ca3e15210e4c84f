import CestWriter.Files.Refusal

/-! The tree that files stand in, and places in it. -/

namespace CestWriter

inductive Node
  | directory (entries : List (String × Node))
  | file (text : String)
  /-- Takes all that is written to it and is empty when read. -/
  | sink
  /-- Reads as the standard input. -/
  | input

namespace Node

def isDirectory : Node → Bool
  | directory _ => true
  | _ => false

/-- Puts a node under a name of a directory, in place of an old one or behind the others. -/
def put : Node → String → Node → Node
  | directory entries, name, n =>
    if entries.any (·.1 == name) then
      directory (entries.map fun e => if e.1 = name then (name, n) else e)
    else directory (entries ++ [(name, n)])
  | other, _, _ => other

def child? : Node → String → Option Node
  | directory entries, name => entries.lookup name
  | _, _ => none

/-- Puts a node at the end of a way of names, with directories where there is nothing yet. -/
def graft : Node → List String → Node → Node
  | _, [], new => new
  | n, name :: rest, new => n.put name (((n.child? name).getD (directory [])).graft rest new)

mutual

/-- The files of a tree with their ways from its top. `above` is the way to the tree, last name first. -/
def filesUnder (above : List String) : Node → List (List String × String)
  | directory entries => filesOf above entries
  | file text => [(above.reverse, text)]
  | sink | input => []

def filesOf (above : List String) : List (String × Node) → List (List String × String)
  | [] => []
  | (name, n) :: rest => filesUnder (name :: above) n ++ filesOf above rest

end

def files (n : Node) : List (List String × String) :=
  n.filesUnder []

end Node

/-- A node, with the directories it stands in and its name in each, nearest first. -/
structure Place where
  node : Node
  above : List (String × Node)

namespace Place

def top (n : Node) : Place :=
  ⟨n, []⟩

/-- The directory above; the root is above itself. -/
def up (p : Place) : Place :=
  match p.above with
  | [] => p
  | (_, n) :: above => ⟨n, above⟩

/-- The longest name of an entry in UTF-8 bytes. -/
def longestName : Nat := 255

/-- Follows one name of a path: a dot stays, two dots go up. Even these need a directory to start
from. -/
def step (p : Place) (name : String) : Except Refusal Place :=
  match p.node with
  | .directory entries =>
    if name = "." then .ok p
    else if name = ".." then .ok p.up
    else if longestName < name.utf8ByteSize then .error .nameTooLong
    else match entries.lookup name with
      | some n => .ok ⟨n, (name, p.node) :: p.above⟩
      | none => .error .noSuchFile
  | _ => .error .notADirectory

def walk (p : Place) (names : List String) : Except Refusal Place :=
  names.foldlM step p

/-- The whole tree, as seen from the place. -/
def root (p : Place) : Node :=
  p.above.foldl (fun n (name, dir) => dir.put name n) p.node

/-- The whole tree after putting a node under a name of this directory. -/
def rootWith (p : Place) (name : String) (n : Node) : Node :=
  root ⟨p.node.put name n, p.above⟩

end Place

end CestWriter
