import CestWriter.Text.Case
import CestWriter.Text.NameChar

/-! Names of classes, methods and files made from recorded names. -/

namespace CestWriter.Identifier

/-- Drops every character that an identifier cannot hold. -/
def sanitize (name : String) : String :=
  String.ofList (name.toList.filter Text.isNameChar)

def className (name : String) : String :=
  Text.capitalize (sanitize name) ++ "Cest"

/-- The method that holds a test which other tests run. -/
def helperName (testName : String) : String :=
  Text.uncapitalize (sanitize testName)

def testMethodName (testName : String) : String :=
  "test" ++ Text.capitalize (sanitize testName)

def fileName (name : String) : String :=
  className name ++ ".php"

end CestWriter.Identifier
