import CestWriter.ClassFile.Error
import CestWriter.Emission.Registry
import CestWriter.Hook
import CestWriter.Layout.Level

/-! The body of a method made from a test: its steps in order, each at the level reached by those
before it. A step that runs another test calls that test's helper method. -/

namespace CestWriter

/-- What all class files of one exporter have in common. -/
structure Exporter where
  registry : Registry
  locators : LocatorWriter
  hooks : Hooks

/-- What a single export may vary. -/
structure RenderOptions where
  baseUrl : String
  originTracing : Bool
  descriptionComments : Bool
  deriving DecidableEq

def RenderOptions.shape : Json.Record RenderOptions where
  name := "RenderOptions"
  blank := ⟨"", false, false⟩
  fields := [
    Json.Codec.string.field "baseUrl" (·.baseUrl) fun x v => { x with baseUrl := v },
    Json.Codec.bool.field "originTracing" (·.originTracing) fun x v => { x with originTracing := v },
    Json.Codec.bool.field "descriptionComments" (·.descriptionComments)
      fun x v => { x with descriptionComments := v }]

/-- The body of a method. `runs` are the places in the pool of the tests that it runs, in order.
A body with a fault ends before the step that could not be written. -/
structure Body where
  lines : List Line
  runs : List Nat
  opensWindow : Bool
  fault : Option ExportError

namespace Exporter

def default : Exporter :=
  ⟨.builtin, .webDriver, .initial⟩

def setting (e : Exporter) (options : RenderOptions) : Setting :=
  ⟨options.baseUrl, e.locators⟩

/-- Writes one step. A step that runs a test is written for that test's name, and the test's place
in the pool comes with it. -/
def writeStep (e : Exporter) (pool : List Test) (options : RenderOptions) (s : Step) :
    Option Nat × Except ExportError Fragment :=
  let write (s : Step) := (e.registry.emit (e.setting options) s).mapError .emit
  if s.command = "run" then
    match findTestIndex? pool s.target with
    | none => (none, .error (.missingTest s.target))
    | some i => (some i, write { s with target := (pool[i]?.getD .blank).name })
  else (none, write s)

/-- The comments above a step: its number and its recorded words, then its description. -/
def comments (options : RenderOptions) (level number : Nat) (s : Step) : List Line :=
  (if options.originTracing then
    [⟨level, Text.oneLine ("// " ++ toString number ++ " | " ++ s.command ++ " | " ++ s.target ++
      " | " ++ s.value)⟩]
  else []) ++
  (if options.descriptionComments && !s.comment.isEmpty then
    [⟨level, Text.oneLine ("// " ++ s.comment)⟩]
  else [])

/-- Writes steps from a level on, numbered from `number`. -/
def walk (e : Exporter) (pool : List Test) (options : RenderOptions) :
    Nat → Level → List Step → Body
  | _, _, [] => ⟨[], [], false, none⟩
  | number, level, s :: rest =>
    match e.writeStep pool options s with
    | (run, .error fault) => ⟨[], run.toList, false, some fault⟩
    | (run, .ok fragment) =>
      let (lines, next) := level.place fragment
      let body := walk e pool options (number + 1) next rest
      ⟨comments options (level.base fragment) number s ++ lines ++ body.lines,
        run.toList ++ body.runs, s.opensWindow || body.opensWindow, body.fault⟩

/-- Two comment lines that head a traced method. -/
def traceHead (options : RenderOptions) (t : Test) : List Line :=
  if options.originTracing then
    [⟨0, "// Test name: " ++ t.name⟩, ⟨0, "// Step # | name | target | value"⟩]
  else []

def body (e : Exporter) (pool : List Test) (options : RenderOptions) (t : Test) : Body :=
  let steps := e.walk pool options 1 .start t.commands
  { steps with
    lines := traceHead options t ++ (e.hooks.get .inEachBegin).render ++ steps.lines ++
      (e.hooks.get .inEachEnd).render }

end Exporter

end CestWriter
