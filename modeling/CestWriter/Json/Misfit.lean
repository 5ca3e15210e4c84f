import CestWriter.Json.Draft
import CestWriter.Number.Shortest
import CestWriter.Text.Printable

/-! Why a JSON value does not fit an expected shape, and the wording. -/

namespace CestWriter.Json

/-- What was found, as far as the wording tells it. -/
inductive Found
  | null
  | bool (b : Bool)
  | number (n : Json.Number)
  | string (s : String)
  | sequence
  | map

def Found.message : Found → String
  | .null => "null"
  | .bool b => "boolean `" ++ toString b ++ "`"
  | .number (.whole n) => "integer `" ++ toString n ++ "`"
  | .number (.real x) => "floating point `" ++ x.text ++ "`"
  | .string s => "string " ++ Text.printable s
  | .sequence => "sequence"
  | .map => "map"

/-- Nothing is said about an unusable draft: the text it came from is refused as a whole. -/
def Draft.found : Draft → Found
  | .unusable | .null => .null
  | .bool b => .bool b
  | .number n => .number n
  | .string s => .string s
  | .array _ => .sequence
  | .object _ => .map

inductive Misfit
  | wrongType (found : Found) (wanted : String)
  | wrongValue (found : Found) (wanted : String)
  | missingField (name : String)
  | duplicateField (name : String)
  | unknownVariant (found : String) (known : List String)
  /-- An array with more items than the record has fields. -/
  | tooLong (length : Nat)
  /-- An array that ends before a required field. -/
  | tooShort (length : Nat) (record : String) (fields : Nat)
  | noVariant (type : String)

def Misfit.message : Misfit → String
  | .wrongType found wanted => "invalid type: " ++ found.message ++ ", expected " ++ wanted
  | .wrongValue found wanted => "invalid value: " ++ found.message ++ ", expected " ++ wanted
  | .missingField name => "missing field `" ++ name ++ "`"
  | .duplicateField name => "duplicate field `" ++ name ++ "`"
  | .unknownVariant found known =>
    "unknown variant `" ++ found ++ "`, expected one of " ++
      ", ".intercalate (known.map fun name => "`" ++ name ++ "`")
  | .tooLong length => "invalid length " ++ toString length ++ ", expected fewer elements in array"
  | .tooShort length record fields =>
    "invalid length " ++ toString length ++ ", expected struct " ++ record ++ " with " ++
      toString fields ++ (if fields = 1 then " element" else " elements")
  | .noVariant type => "data did not match any variant of untagged enum " ++ type

end CestWriter.Json
