import CestWriter.Json.Basic
import CestWriter.Table

/-! JSON as it is written: fields in the order of the text, repeated ones included, and a marker
for what has the form of JSON but no value. -/

namespace CestWriter.Json

inductive Draft
  /-- A number beyond the doubles, a string with half a surrogate pair, or a container nested too
  deep. It may be skipped but not read. -/
  | unusable
  | null
  | bool (b : Bool)
  | number (n : Json.Number)
  | string (s : String)
  | array (items : List Draft)
  | object (fields : List (String × Draft))

mutual

/-- The value of a draft: of a repeated field the last one counts. -/
def Draft.value? : Draft → Option Json
  | .unusable => none
  | .null => some .null
  | .bool b => some (.bool b)
  | .number n => some (.number n)
  | .string s => some (.string s)
  | .array items => (Draft.values? items).map .array
  | .object fields => (Draft.fieldValues? fields []).map .object

def Draft.values? : List Draft → Option (List Json)
  | [] => some []
  | item :: rest => do
    let value ← item.value?
    let values ← Draft.values? rest
    some (value :: values)

/-- Sets the fields one after another on top of `done`. -/
def Draft.fieldValues? : List (String × Draft) → List (String × Json) → Option (List (String × Json))
  | [], done => some done
  | (key, field) :: rest, done => do
    let value ← field.value?
    Draft.fieldValues? rest (Table.set key value done)

end

mutual

/-- A value as it would be written. -/
def draft : Json → Draft
  | null => .null
  | bool b => .bool b
  | number n => .number n
  | string s => .string s
  | array items => .array (drafts items)
  | object fields => .object (draftFields fields)

def drafts : List Json → List Draft
  | [] => []
  | item :: rest => draft item :: drafts rest

def draftFields : List (String × Json) → List (String × Draft)
  | [] => []
  | (key, value) :: rest => (key, draft value) :: draftFields rest

end

end CestWriter.Json
