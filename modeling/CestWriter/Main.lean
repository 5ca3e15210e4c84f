import CestWriter.Cli.World

/-! The command line as a process: each step of a program becomes an action on the real file system
and the standard streams. What is done, in which order and with which words is decided elsewhere. -/

namespace CestWriter.Cli

/-- A refusal of the system. The number comes with either sign. -/
def refusal : IO.Error → Refusal
  | .alreadyExists _ code words | .inappropriateType _ code words | .invalidArgument _ code words
  | .permissionDenied _ code words | .resourceExhausted _ code words | .noSuchThing _ code words
  | .noFileOrDirectory _ code words | .interrupted _ code words | .otherError code words
  | .unsupportedOperation code words | .resourceBusy code words | .unsatisfiedConstraints code words =>
    let number := if code < 0x80000000 then code.toNat else (0 - code).toNat
    (Refusal.numbered.lookup number).getD
      (.other (words ++ " (os error " ++ toString number ++ ")"))
  | e => .other (toString e)

/-- The result of an action, or why the system refused it. -/
def attempt {α : Type} (action : IO α) : IO (Except Refusal α) := do
  match ← action.toBaseIO with
  | .ok result => return .ok result
  | .error e => return .error (refusal e)

/-- An action on a path that is one. -/
def attemptAt {α : Type} (path : String) (action : IO α) : IO (Except Refusal α) :=
  match Path.check path with
  | .ok () => attempt action
  | .error e => return .error e

def textOf (bytes : ByteArray) : Except Refusal String :=
  match String.fromUTF8? bytes with
  | some text => .ok text
  | none => .error .notText

/-- Whether a path means a directory: only there does a dot lead anywhere. -/
def leadsOn (path : String) : IO Bool := do
  return (← attemptAt path (IO.FS.realPath (path ++ "/."))).isOk

/-- Carries out a program. Serving processes listen on sockets, which this process does not open, so
no session is ever reached. -/
def carryOut {α : Type} : Program α → IO α
  | .done result => return result
  | .print text next => do
    (← IO.getStdout).putStr text
    carryOut next
  | .readInput next => do
    carryOut (next ((← attempt (do (← IO.getStdin).readBinToEnd)).bind textOf))
  | .readFile path next => do
    carryOut (next ((← attemptAt path (IO.FS.readBinFile path)).bind textOf))
  | .makeDir path next => do carryOut (next (← attemptAt path (IO.FS.createDir path)))
  | .isDirectory path next => do carryOut (next (← leadsOn path))
  | .writeFile path text next => do
    carryOut (next (← attemptAt path (IO.FS.writeFile path text)))
  | .ask socket _ next => carryOut (next (Wire.ask socket .absent))

/-- Commands and options, for those who ask. -/
def usageText : String :=
  "Usage: codecept-export [-s SESSION] [-q] COMMAND\n\n" ++
  "  export PROJECT [-t TEST | -S SUITE] [-u URL] [-o DIR] [--stdout]\n" ++
  "         [--origin-tracing] [--description-comments]\n" ++
  "  commands\n" ++
  "  send OPTIONS [-o DIR]\n"

end CestWriter.Cli

open CestWriter.Cli in
def main (words : List String) : IO UInt32 := do
  let env : Environment := ⟨(← IO.getEnv "HOME").getD "/tmp",
    ← IO.getEnv "CODECEPT_EXPORT_SESSION", ← IO.getEnv "CODECEPT_EXPORT_URL"⟩
  match Invocation.ofWords env words with
  | .error .version => do
    (← IO.getStdout).putStr versionText
    return 0
  | .error .help => do
    (← IO.getStdout).putStr usageText
    return 0
  | .error .usage => do
    (← IO.getStderr).putStr usageText
    return 2
  | .ok i => do
    let shown := Shown.ofResult "" (← carryOut (perform env.home i).run)
    (← IO.getStderr).putStr shown.complaint
    return shown.exit.toUInt32
