import CestWriter.Cli.Program
import CestWriter.Files.Disk

/-! How programs run in a world of plain data. -/

namespace CestWriter.Cli

/-- All that a program can see and change. -/
structure World where
  disk : Disk
  input : String
  /-- What the server at a socket does with a line. Sockets are no part of the disk. -/
  server : String → String → Wire.Peer
  output : String

namespace World

/-- The text at a path. Of the standard input nothing is left behind. -/
def readFile (w : World) (path : String) : Except Refusal String × World :=
  match w.disk.find path with
  | .error e => (.error e, w)
  | .ok p =>
    match p.node with
    | .directory _ => (.error .isADirectory, w)
    | .file text => (.ok text, w)
    | .sink => (.ok "", w)
    | .input => (.ok w.input, { w with input := "" })

/-- Takes over a changed disk, if there is one. -/
def settle (w : World) : Except Refusal Disk → Except Refusal Unit × World
  | .ok disk => (.ok (), { w with disk := disk })
  | .error e => (.error e, w)

end World

/-- Runs a program. -/
def Program.run {α : Type} : Program α → World → α × World
  | .done result, w => (result, w)
  | .print text next, w => next.run { w with output := w.output ++ text }
  | .readInput next, w => (next (.ok w.input)).run { w with input := "" }
  | .readFile path next, w =>
    let (text, w) := w.readFile path
    (next text).run w
  | .makeDir path next, w =>
    let (result, w) := w.settle (w.disk.makeDir path)
    (next result).run w
  | .isDirectory path next, w => (next (w.disk.isDirectory path)).run w
  | .writeFile path text next, w =>
    let (result, w) := w.settle (w.disk.write path text)
    (next result).run w
  | .ask socket line next, w => (next (Wire.ask socket (w.server socket line))).run w

/-- What a run of the command line shows: its exit code and what it writes to both streams. -/
structure Shown where
  exit : Nat
  output : String
  complaint : String
  deriving DecidableEq

/-- What is shown at the end of a program. -/
def Shown.ofResult (output : String) : Except Failure Unit → Shown
  | .ok () => ⟨0, output, ""⟩
  | .error e => ⟨e.exitCode, output, "Error: " ++ e.message ++ "\n"⟩

def versionText : String :=
  "codecept-export " ++ ClassFile.version ++ "\n"

/-- Runs a command line in a world; none for words that are not a command. -/
def runWords (env : Environment) (words : List String) (w : World) : Except Stop (Shown × World) :=
  match Invocation.ofWords env words with
  | .error .version => .ok (⟨0, versionText, ""⟩, w)
  | .error stop => .error stop
  | .ok i =>
    let (result, w) := (perform env.home i).run.run w
    .ok (.ofResult w.output result, w)

end CestWriter.Cli
