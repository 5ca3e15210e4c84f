import CestWriter.Exchange.Conversion

/-! The words of a command line. -/

namespace CestWriter.Cli

/-! ## Options and operands -/

/-- What an option does. -/
inductive OptionKind
  | flag
  /-- Takes a value, which must not be empty if it is a path. -/
  | value (isPath : Bool)
  /-- Ends the reading at once and shows something. -/
  | version
  | help
  deriving DecidableEq

structure OptionSpec where
  long : String
  short : Option Char
  kind : OptionKind
  deriving DecidableEq

/-- Why a command line is not carried out. -/
inductive Stop
  | usage
  | version
  | help
  deriving DecidableEq

/-- Words read so far: options by their long name, and the operands. -/
structure Words where
  options : List (String × String)
  operands : List String

namespace Words

def empty : Words :=
  ⟨[], []⟩

def has (w : Words) (long : String) : Bool :=
  w.options.any (·.1 == long)

def value? (w : Words) (long : String) : Option String :=
  w.options.lookup long

/-- An option may be given once. -/
def add (w : Words) (o : OptionSpec) (value : String) : Except Stop Words :=
  if w.has o.long then .error .usage
  else if o.kind = .value true ∧ value.isEmpty then .error .usage
  else .ok { w with options := w.options ++ [(o.long, value)] }

/-- Every operand is a path, so none is empty. -/
def addOperand (maxOperands : Nat) (w : Words) (word : String) : Except Stop Words :=
  if word.isEmpty ∨ maxOperands ≤ w.operands.length then .error .usage
  else .ok { w with operands := w.operands ++ [word] }

end Words

/-- A word that begins like an option; a dash alone does not. -/
def looksLikeOption (word : String) : Bool :=
  Text.startsWith "-" word && word != "-"

/-- Splits `--name=value`; without an equals sign there is no value. -/
def splitLong (body : String) : String × Option String :=
  match Text.cut? '=' body with
  | some (name, value) => (name, some value)
  | none => (body, none)

/-- What one option word asks for, apart from the words after it. -/
inductive Reading
  | done (w : Words)
  /-- The next word is the option's value. -/
  | awaits (w : Words) (o : OptionSpec)

def readLong (specs : List OptionSpec) (w : Words) (body : String) : Except Stop Reading :=
  let (name, value) := splitLong body
  match specs.find? (·.long == name) with
  | none => .error .usage
  | some o =>
    match o.kind, value with
    | .flag, none => (w.add o "").map .done
    | .version, none => .error .version
    | .help, none => .error .help
    | .value _, some v => (w.add o v).map .done
    | .value _, none => if w.has o.long then .error .usage else .ok (.awaits w o)
    | _, some _ => .error .usage

/-- Reads a run of one-letter options. The rest after one that takes a value is its value, less an
equals sign in front. -/
def readShort (specs : List OptionSpec) (w : Words) : List Char → Except Stop Reading
  | [] => .ok (.done w)
  | c :: rest =>
    match specs.find? (·.short == some c) with
    | none => .error .usage
    | some o =>
      match o.kind, rest with
      | .flag, _ => (w.add o "").bind fun w => readShort specs w rest
      | .version, _ => .error .version
      | .help, _ => .error .help
      | .value _, [] => if w.has o.long then .error .usage else .ok (.awaits w o)
      | .value _, '=' :: value => (w.add o (String.ofList value)).map .done
      | .value _, value => (w.add o (String.ofList value)).map .done

/-- Reads one option word. -/
def readOption (specs : List OptionSpec) (w : Words) (word : String) : Except Stop Reading :=
  match word.toList with
  | '-' :: '-' :: body => readLong specs w (String.ofList body)
  | _ :: body => readShort specs w body
  | [] => .error .usage

/-- Reads option words up to the first operand, which comes back with the words after it. -/
def readGeneral (specs : List OptionSpec) :
    Option OptionSpec → Words → List String → Except Stop (Words × List String)
  | none, w, [] => .ok (w, [])
  | some _, _, [] => .error .usage
  | some o, w, word :: rest =>
    if looksLikeOption word then .error .usage
    else (w.add o word).bind fun w => readGeneral specs none w rest
  | none, w, word :: rest =>
    if word = "--" then .error .usage
    else if looksLikeOption word then
      (readOption specs w word).bind fun
        | .done w => readGeneral specs none w rest
        | .awaits w o => readGeneral specs (some o) w rest
    else .ok (w, word :: rest)

/-- Reads options and operands in any order. After two dashes all words are operands. -/
def readWords (specs : List OptionSpec) (maxOperands : Nat) :
    Option OptionSpec → Words → List String → Except Stop Words
  | none, w, [] => .ok w
  | some _, _, [] => .error .usage
  | some o, w, word :: rest =>
    if looksLikeOption word then .error .usage
    else (w.add o word).bind fun w => readWords specs maxOperands none w rest
  | none, w, word :: rest =>
    if word = "--" then rest.foldlM (Words.addOperand maxOperands) w
    else if looksLikeOption word then
      (readOption specs w word).bind fun
        | .done w => readWords specs maxOperands none w rest
        | .awaits w o => readWords specs maxOperands (some o) w rest
    else (w.addOperand maxOperands word).bind fun w => readWords specs maxOperands none w rest

/-! ## Commands -/

/-- Exports from a project file; `url` is there if it was given in any way. -/
structure ExportCommand where
  project : String
  selection : Selection
  url : Option String
  outDir : String
  toStdout : Bool
  originTracing : Bool
  descriptionComments : Bool

inductive Command
  | exportFiles (c : ExportCommand)
  | commands
  | send (request : String) (outDir : Option String)

structure Invocation where
  session : String
  quiet : Bool
  command : Command

/-- The home directory, and variables that stand in for options. -/
structure Environment where
  home : String
  session : Option String
  url : Option String

def helpSpec : OptionSpec := ⟨"help", some 'h', .help⟩

def globalSpecs : List OptionSpec := [
  ⟨"session", some 's', .value false⟩, ⟨"quiet", some 'q', .flag⟩, helpSpec,
  ⟨"version", some 'V', .version⟩]

def exportSpecs : List OptionSpec := [
  ⟨"test", some 't', .value false⟩, ⟨"suite", some 'S', .value false⟩, ⟨"url", some 'u', .value false⟩,
  ⟨"out-dir", some 'o', .value true⟩, ⟨"stdout", none, .flag⟩, ⟨"origin-tracing", none, .flag⟩,
  ⟨"description-comments", none, .flag⟩, helpSpec]

def sendSpecs : List OptionSpec := [⟨"out-dir", some 'o', .value true⟩, helpSpec]

/-- The only operand. -/
def Words.path (w : Words) : Except Stop String :=
  match w.operands with
  | [path] => .ok path
  | _ => .error .usage

def exportCommand (env : Environment) (words : List String) : Except Stop Command := do
  let w ← readWords exportSpecs 1 none .empty words
  let project ← w.path
  let selection ← match w.value? "test", w.value? "suite" with
    | some _, some _ => throw .usage
    | some key, none => pure (.test key)
    | none, some key => pure (.suite key)
    | none, none => pure .allTests
  return .exportFiles ⟨project, selection, (w.value? "url").or env.url, (w.value? "out-dir").getD ".",
    w.has "stdout", w.has "origin-tracing", w.has "description-comments"⟩

def sendCommand (words : List String) : Except Stop Command := do
  let w ← readWords sendSpecs 1 none .empty words
  return .send (← w.path) (w.value? "out-dir")

def listCommand (words : List String) : Except Stop Command := do
  let _ ← readWords [helpSpec] 0 none .empty words
  return .commands

def commandNames : List String :=
  ["export", "commands", "send", "help"]

/-- Help on everything, or on one command by its name. -/
def helpCommand : List String → Stop
  | [] => .help
  | [name] => if name ∈ commandNames then .help else .usage
  | _ => .usage

/-- Reads a whole command line: general options, the name of a command, and its own words. -/
def Invocation.ofWords (env : Environment) (words : List String) : Except Stop Invocation := do
  let (w, rest) ← readGeneral globalSpecs none .empty words
  let command ← match rest with
    | "export" :: rest => exportCommand env rest
    | "commands" :: rest => listCommand rest
    | "send" :: rest => sendCommand rest
    | "help" :: rest => throw (helpCommand rest)
    | _ => throw .usage
  return ⟨((w.value? "session").or env.session).getD "default", w.has "quiet", command⟩

end CestWriter.Cli
