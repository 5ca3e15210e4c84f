import CestWriter.ClassFile.Class
import CestWriter.Layout.Indent

/-! Class files: the head, the class with its members, and a first line that names the generator. -/

namespace CestWriter

structure ClassFile where
  filename : String
  body : String
  deriving DecidableEq

/-- Both fields of a file are required. -/
def ClassFile.shape : Json.Record ClassFile where
  name := "ExportedFile"
  blank := ⟨"", ""⟩
  fields := [
    Json.Codec.string.required "filename" (·.filename) fun x v => { x with filename := v },
    Json.Codec.string.required "body" (·.body) fun x v => { x with body := v }]

namespace ClassFile

def version : String := "0.1.0"

/-- The first line of every file. -/
def marker : String :=
  "// Generated by codecept-export " ++ version

/-- Drops the first line of a text that has more than one. -/
def dropFirstLine (s : String) : String :=
  match Text.cut? '\n' s with
  | some (_, rest) => rest
  | none => s

def withoutMarker (f : ClassFile) : ClassFile :=
  { f with body := dropFirstLine f.body }

end ClassFile

namespace Exporter

/-- Hooks that come before the methods of a class, in order. -/
def leadingHooks : List Hook.Kind :=
  [.declareVariables, .beforeAll, .beforeEach, .afterEach, .afterAll]

/-- The lines of a hook, if it contributes any. -/
def hookMember (e : Exporter) (kind : Hook.Kind) : Option (List Line) :=
  let h := e.hooks.get kind
  if h.isRendered then some h.render else none

/-- What stands in the class, in order. -/
def members (e : Exporter) (c : Class) : List (List Line) :=
  leadingHooks.filterMap e.hookMember ++ c.methods.map Method.lines ++
    (if c.opensWindow then [Window.helper] else []) ++ (e.hookMember .declareMethods).toList

/-- Members one level deep with an empty line between two. -/
def memberLines (members : List (List Line)) : List Line :=
  ((members.map fun lines => lines.map (Line.raise 1)).intersperse [⟨0, ""⟩]).flatten

/-- The lines of a whole file. -/
def layout (e : Exporter) (name : String) (c : Class) : List Line :=
  [⟨0, ClassFile.marker⟩] ++ (e.hooks.get .declareDependencies).render ++
    [⟨0, ""⟩, ⟨0, "class " ++ Identifier.className name ++ " \x7b"⟩] ++
    memberLines (e.members c) ++ [⟨0, "\x7d"⟩]

def exportClass (e : Exporter) (name : String) (members pool : List Test) (options : RenderOptions) :
    Except ExportError ClassFile :=
  (e.assemble name members pool options).map fun c =>
    ⟨Identifier.fileName name, Line.textOf (e.layout name c)⟩

/-- A class named after a test, with one test method. -/
def exportTest (e : Exporter) (t : Test) (pool : List Test) (options : RenderOptions) :
    Except ExportError ClassFile :=
  e.exportClass t.name [t] pool options

/-- The tests of a suite, in its order. -/
def suiteMembers (s : Suite) (pool : List Test) : Except ExportError (List Test) :=
  s.tests.mapM fun key =>
    match findTest? pool key with
    | some t => .ok t
    | none => .error (.missingTest key)

/-- A class named after a suite, with a test method for each of its tests. -/
def exportSuite (e : Exporter) (s : Suite) (pool : List Test) (options : RenderOptions) :
    Except ExportError ClassFile := do
  e.exportClass s.name (← suiteMembers s pool) pool options

end Exporter

end CestWriter
