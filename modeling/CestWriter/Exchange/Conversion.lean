import CestWriter.Exchange.Request

/-! Exporting from a project: one test, one suite, or every test in a file of its own. -/

namespace CestWriter

inductive Selection
  | test (key : String)
  | suite (key : String)
  | allTests
  deriving DecidableEq

namespace Exporter

def exportAll (e : Exporter) (tests pool : List Test) (options : RenderOptions) :
    Except ExportError (List ClassFile) :=
  tests.mapM fun t => (e.exportTest t pool options).map ClassFile.withoutMarker

/-- The selected files in the order of the project, without their first lines. The first class that
cannot be made fails the whole conversion. -/
def convert (e : Exporter) (p : Project) (options : RenderOptions) :
    Selection → Except ExportError (List ClassFile)
  | .test key =>
    match p.findTest? key with
    | some t => e.exportAll [t] p.tests options
    | none => .error (.missingTest key)
  | .suite key =>
    match p.findSuite? key with
    | some s => (e.exportSuite s p.tests options).map fun f => [f.withoutMarker]
    | none => .error (.missingSuite key)
  | .allTests => e.exportAll p.tests p.tests options

end Exporter

/-- Reads a project from the text of its file. -/
def Project.ofText (text : String) : Except ExportError Project :=
  match Project.shape.ofText? text with
  | some p => .ok p
  | none => .error .badText

end CestWriter
