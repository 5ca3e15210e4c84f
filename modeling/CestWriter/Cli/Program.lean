import CestWriter.Cli.Arguments
import CestWriter.Exchange.Wire
import CestWriter.Files.Path
import CestWriter.Settings

/-! What the commands do, as a program of steps that reach outside: files, the standard streams and a
serving process. -/

namespace CestWriter.Cli

/-- A program that ends with an `α`. -/
inductive Program (α : Type)
  | done (result : α)
  | print (text : String) (next : Program α)
  | readInput (next : Except Refusal String → Program α)
  | readFile (path : String) (next : Except Refusal String → Program α)
  /-- Makes one directory in an existing one. -/
  | makeDir (path : String) (next : Except Refusal Unit → Program α)
  | isDirectory (path : String) (next : Bool → Program α)
  | writeFile (path text : String) (next : Except Refusal Unit → Program α)
  /-- Sends a line to the server that listens at a socket and waits for its reply. -/
  | ask (socket line : String) (next : Except Wire.Failure Json → Program α)

namespace Program

def bind {α β : Type} (p : Program α) (f : α → Program β) : Program β :=
  match p with
  | done result => f result
  | print text next => .print text (next.bind f)
  | readInput next => .readInput fun r => (next r).bind f
  | readFile path next => .readFile path fun r => (next r).bind f
  | makeDir path next => .makeDir path fun r => (next r).bind f
  | isDirectory path next => .isDirectory path fun b => (next b).bind f
  | writeFile path text next => .writeFile path text fun r => (next r).bind f
  | ask socket line next => .ask socket line fun r => (next r).bind f

instance : Monad Program where
  pure := done
  bind := bind

end Program

/-! ## Directories -/

/-- Steps that may be refused. -/
abbrev Attempt := ExceptT Refusal Program

/-- Makes a directory, or finds it made. -/
def ensureDir (path : String) : Attempt Unit :=
  ExceptT.mk (.makeDir path fun
    | .error .fileExists => .isDirectory path fun there =>
      .done (if there then .ok () else .error .fileExists)
    | r => .done r)

/-- Looks for the nearest directory that can be made, and makes it. The ones that need it come back,
the one to be made first in front; `waiting` are those of a longer path. -/
def makeNearest (waiting : List String) : List String → Attempt (List String)
  | [] => return waiting
  | path :: above => ExceptT.mk do
    match ← (ensureDir path).run with
    | .ok () => return .ok waiting
    | .error .noSuchFile => (makeNearest (path :: waiting) above).run
    | .error e => return .error e

/-- Makes a directory and all that are missing on the way to it. -/
def ensureDirs (path : String) : Attempt Unit := do
  if Path.isTop path then return
  (← makeNearest [] (path :: Path.parents path)).forM ensureDir

/-! ## The directory of the program -/

/-- Makes the directory of the program in a home directory. Nobody minds a refusal. -/
def ensureOwnDir (home : String) : Program Unit :=
  (ensureDirs (Settings.directory home)).run.bind fun _ => .done ()

/-- The settings saved in a home directory. The directory they belong in is made for the look. -/
def savedSettings (home : String) : Program Settings :=
  (ensureOwnDir home).bind fun _ =>
    .readFile (Settings.path home) fun text => .done (.ofText text.toOption)

/-! ## Failures -/

/-- Why a command fails. -/
inductive Failure
  | connection (text : String)
  | exportFailed (text : String)
  | protocol (text : String)
  | io (text : String)
  deriving DecidableEq

def Failure.exitCode : Failure → Nat
  | exportFailed _ => 1
  | connection _ => 2
  | protocol _ => 3
  | io _ => 4

def Failure.message : Failure → String
  | connection text => "Connection error: " ++ text
  | exportFailed text => "Export failed: " ++ text
  | protocol text => "Protocol error: " ++ text
  | io text => "I/O error: " ++ text

def Failure.ofExport : ExportError → Failure
  | .system text => .io text
  | e => .exportFailed e.message

/-- Steps that may fail. -/
abbrev Job := ExceptT Failure Program

def lift {α : Type} (p : Program α) : Job α :=
  ExceptT.mk (p.bind fun x => .done (.ok x))

/-- Fails with the given cause if there is one. -/
def orFail {α ε : Type} (cause : ε → Failure) : Except ε α → Job α
  | .ok x => pure x
  | .error e => throw (cause e)

def print (text : String) : Job Unit :=
  lift (.print text (.done ()))

/-- A refusal as the cause of a failure, after `doing`. -/
def Failure.ofRefusal (doing : String) (e : Refusal) : Failure :=
  .io (doing ++ e.text)

/-- The text of a file, or of the standard input for a dash. -/
def readSource (path doing : String) : Job String := do
  if Path.isDash path then orFail (.ofRefusal "") (← lift (.readInput .done))
  else orFail (.ofRefusal doing) (← lift (.readFile path .done))

/-- Writes a class file into a directory, which is made if it is missing, and gives its path. -/
def writeClass (dir : String) (f : ClassFile) : Job String := do
  let path := Path.join dir f.filename
  orFail (.ofRefusal ("Failed to create " ++ dir ++ ": ")) (← lift (ensureDirs dir).run)
  orFail (.ofRefusal ("Failed to write " ++ path ++ ": ")) (← lift (.writeFile path f.body .done))
  return path

/-- Writes files one after another, each announced unless `quiet`. -/
def writeClasses (dir : String) (quiet : Bool) : List ClassFile → Job Unit
  | [] => pure ()
  | f :: rest => do
    let path ← writeClass dir f
    if !quiet then print (path ++ "\n")
    writeClasses dir quiet rest

/-- The base address: as given, or that of the project, or that of the settings. -/
def baseUrl (home : String) (given : Option String) (p : Project) : Job String := do
  match given with
  | some url => return url
  | none =>
    if p.url.isEmpty then return (← lift (savedSettings home)).defaultBaseUrl.getD "" else return p.url

/-- Exports from a project. All files are made before the first is written. -/
def exportProject (home : String) (quiet : Bool) (c : ExportCommand) (p : Project) : Job Unit := do
  let url ← baseUrl home c.url p
  let options : RenderOptions := ⟨url, c.originTracing, c.descriptionComments⟩
  let files ← orFail .ofExport (Exporter.default.convert p options c.selection)
  if c.toStdout then print (String.join (files.map (·.body))) else writeClasses c.outDir quiet files

/-- Exports from a project file. -/
def exportFiles (home : String) (quiet : Bool) (c : ExportCommand) : Job Unit := do
  let text ← readSource c.project ""
  let project ← orFail .ofExport (Project.ofText text)
  exportProject home quiet c project

/-- Lists the commands that can be exported. -/
def listCommands : Job Unit :=
  print (String.join (Registry.builtin.names.map (· ++ "\n")))

/-- Sends an export request to the server of a session and shows or writes the result. -/
def send (home session : String) (quiet : Bool) (path : String) (outDir : Option String) : Job Unit := do
  let text ← readSource path ("Failed to read " ++ path ++ ": ")
  let request ← match ExportRequest.shape.ofText? text with
    | some r => pure r
    | none => throw (.exportFailed "Invalid export options: <json>")
  lift (ensureOwnDir home)
  let answer ← lift (.ask (Wire.socket home session) request.line .done)
  let refused : Wire.Failure → Failure
    | .unreachable reason => .connection ("Failed to connect to session '" ++ session ++ "': " ++
        Wire.Failure.message (.unreachable reason))
    | e => .protocol ("Failed to send request: " ++ e.message)
  match ← orFail refused (Reply.ofPeer answer) with
  | some (.exported body filename) =>
    match outDir with
    | some dir => writeClasses dir quiet [⟨filename, body⟩]
    | none => print body
  | some (.failed error _) => throw (.exportFailed error)
  | none => throw (.protocol "Server did not treat the message as an export request")

def perform (home : String) (i : Invocation) : Job Unit :=
  match i.command with
  | .exportFiles c => exportFiles home i.quiet c
  | .commands => listCommands
  | .send path outDir => send home i.session i.quiet path outDir

end CestWriter.Cli
