/-! Why a step cannot be written. -/

namespace CestWriter

/-- A form of an argument that a command does not handle. -/
inductive BadArgument
  /-- No strategy of this name; for a locator without a strategy, the whole locator. -/
  | unknownLocator (text : String)
  /-- An option is picked by its label or its value, not by `kind`. -/
  | optionKind (kind : String)
  | number (what text : String)
  | noRepeatCount
  | windowSize (text : String)
  | testName (name : String)
  | attributeLocator (text : String)
  | windowSerial (text : String)
  | windowTarget
  | other (text : String)
  deriving DecidableEq

def BadArgument.message : BadArgument → String
  | unknownLocator text => "Unknown locator " ++ text
  | optionKind kind => "Option selection by " ++ kind ++ " is not supported"
  | number what text => "Invalid " ++ what ++ " '" ++ text ++ "'"
  | noRepeatCount => "times requires a repeat count"
  | windowSize text => "Invalid window size '" ++ text ++ "'"
  | testName name => "Cannot run test '" ++ name ++ "'"
  | attributeLocator text => "Attribute locator '" ++ text ++ "' must have the form locator@attribute"
  | windowSerial text => "Invalid window serial '" ++ text ++ "'"
  | windowTarget => "Can only emit 'select window' using handles"
  | other text => text

inductive EmitError
  | unknownCommand (name : String)
  | badArgument (fault : BadArgument)
  /-- Something that takes part in the emission failed. -/
  | failure (text : String)
  deriving DecidableEq

def EmitError.message : EmitError → String
  | unknownCommand name => "Unknown command " ++ name
  | badArgument fault => fault.message
  | failure text => "Emission failed: " ++ text

end CestWriter
