import CestWriter.ClassFile.Basic
import CestWriter.Recording.Shape

/-! Export requests of a recorder: what to export, the tests around it, and how. -/

namespace CestWriter

/-- `tests` are the tests that suites and steps may refer to. Browser settings are accepted and not
used. -/
structure ExportRequest where
  url : String
  test : Option Test
  suite : Option Suite
  tests : List Test
  project : Option Project
  enableOriginTracing : Bool
  enableDescriptionAsComment : Bool
  beforeEachOptions : Option Json

open Json (Codec Record)

def ExportRequest.shape : Record ExportRequest where
  name := "ExportOptions"
  blank := ⟨"", none, none, [], none, false, false, none⟩
  fields := [
    Codec.string.field "url" (·.url) fun x v => { x with url := v },
    Test.shape.codec.option.field "test" (·.test) fun x v => { x with test := v },
    Suite.shape.codec.option.field "suite" (·.suite) fun x v => { x with suite := v },
    Test.shape.codec.list.field "tests" (·.tests) fun x v => { x with tests := v },
    Project.shape.codec.option.field "project" (·.project) fun x v => { x with project := v },
    Codec.bool.field "enableOriginTracing" (·.enableOriginTracing)
      fun x v => { x with enableOriginTracing := v },
    Codec.bool.field "enableDescriptionAsComment" (·.enableDescriptionAsComment)
      fun x v => { x with enableDescriptionAsComment := v },
    Codec.any.option.field "beforeEachOptions" (·.beforeEachOptions)
      fun x v => { x with beforeEachOptions := v }]

namespace ExportRequest

def options (r : ExportRequest) : RenderOptions :=
  ⟨r.url, r.enableOriginTracing, r.enableDescriptionAsComment⟩

/-- The tests of the request, or those of its project if it has none. -/
def pool (r : ExportRequest) : List Test :=
  match r.project with
  | some p => if r.tests.isEmpty then p.tests else r.tests
  | none => r.tests

end ExportRequest

/-- The suite of a request, or else its test. -/
def Exporter.exportRequest (e : Exporter) (r : ExportRequest) : Except ExportError ClassFile :=
  match r.suite, r.test with
  | some s, _ => e.exportSuite s r.pool r.options
  | none, some t => e.exportTest t r.pool r.options
  | none, none => .error .nothingToExport

end CestWriter
