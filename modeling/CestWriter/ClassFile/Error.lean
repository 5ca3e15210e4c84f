import CestWriter.Emission.Error
import CestWriter.Json.Misfit

/-! Why a class file cannot be made. -/

namespace CestWriter

inductive ExportError
  | emit (e : EmitError)
  | missingTest (key : String)
  | missingSuite (key : String)
  | invalidName (name : String)
  | nothingToExport
  /-- A request has the wrong shape. -/
  | misfit (m : Json.Misfit)
  /-- A text is not JSON of the expected shape; the details are not kept. -/
  | badText
  /-- The system refused to read or write, in its own words. -/
  | system (text : String)

def ExportError.message : ExportError → String
  | emit e => e.message
  | missingTest key => "Test '" ++ key ++ "' not found"
  | missingSuite key => "Suite '" ++ key ++ "' not found"
  | invalidName name => "'" ++ name ++ "' cannot be turned into a class or method name"
  | nothingToExport => "Export request names neither a test nor a suite"
  | misfit m => "Invalid JSON: " ++ m.message
  | badText => "Invalid JSON: <json>"
  | system text => "I/O error: " ++ text

end CestWriter
