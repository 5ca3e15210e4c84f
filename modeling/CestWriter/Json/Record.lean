import CestWriter.Json.Misfit
import CestWriter.Json.Text
import CestWriter.Number.Whole

/-! Reading typed data from JSON and writing it back. A record type is described once, by its
fields in order, and both directions follow from the description. -/

namespace CestWriter.Json

/-- Reads an `α` from JSON as written. -/
abbrev Reader (α : Type) := Draft → Except Misfit α

namespace Reader

def string : Reader String
  | .string s => .ok s
  | d => .error (.wrongType d.found "a string")

def bool : Reader Bool
  | .bool b => .ok b
  | d => .error (.wrongType d.found "a boolean")

/-- A whole number from `low` to `high`; `wanted` names the range. -/
def whole (low high : Int) (wanted : String) : Reader Int
  | .number (.whole n) =>
    if low ≤ n ∧ n ≤ high then .ok n else .error (.wrongValue (.number (.whole n)) wanted)
  | d => .error (.wrongType d.found wanted)

def unsigned (wanted : String) : Reader Nat := fun d =>
  (whole 0 Number.limit64 wanted d).map Int.toNat

def unsigned64 : Reader Nat :=
  unsigned "u64"

def size : Reader Nat :=
  unsigned "usize"

def signed32 : Reader Int :=
  whole (-2147483648) 2147483647 "i32"

def list {α : Type} (item : Reader α) : Reader (List α)
  | .array items => items.mapM item
  | d => .error (.wrongType d.found "a sequence")

/-- Null stands for nothing. -/
def option {α : Type} (item : Reader α) : Reader (Option α)
  | .null => .ok none
  | d => (item d).map some

/-- Fields of any name, ascending; of a repeated one the last counts. -/
def map {α : Type} (item : Reader α) : Reader (List (String × α))
  | .object fields => fields.foldlM (fun done (key, field) => (item field).map (Table.set key · done)) []
  | d => .error (.wrongType d.found "a map")

/-- Any value at all. -/
def any : Reader Json := fun d =>
  match d.value? with
  | some value => .ok value
  | none => .error (.wrongType d.found "any value")

end Reader

/-- Null for nothing. -/
def ofOption {α : Type} (write : α → Json) : Option α → Json
  | some x => write x
  | none => null

def ofList {α : Type} (write : α → Json) (xs : List α) : Json :=
  .array (xs.map write)

/-- Both directions for one type. -/
structure Codec (α : Type) where
  read : Reader α
  write : α → Json

namespace Codec

def string : Codec String := ⟨Reader.string, .string⟩

def bool : Codec Bool := ⟨Reader.bool, .bool⟩

def unsigned64 : Codec Nat := ⟨Reader.unsigned64, ofNat⟩

def size : Codec Nat := ⟨Reader.size, ofNat⟩

def signed32 : Codec Int := ⟨Reader.signed32, ofInt⟩

def any : Codec Json := ⟨Reader.any, id⟩

def list {α : Type} (c : Codec α) : Codec (List α) := ⟨Reader.list c.read, ofList c.write⟩

def option {α : Type} (c : Codec α) : Codec (Option α) := ⟨Reader.option c.read, ofOption c.write⟩

def strings : Codec (List String) := list string

def map {α : Type} (c : Codec α) : Codec (List (String × α)) :=
  ⟨Reader.map c.read, fun fields => .object (fields.map fun (key, x) => (key, c.write x))⟩

end Codec

/-- One field of a record type: how it is read into a record and written from one. A field that
writes nothing is left out. -/
structure Field (σ : Type) where
  name : String
  required : Bool
  read : Draft → σ → Except Misfit σ
  write : σ → Option Json

/-- A record type: its name, the record before any field is read, and its fields in order. -/
structure Record (σ : Type) where
  name : String
  blank : σ
  fields : List (Field σ)

namespace Codec

variable {α σ : Type}

/-- A field that may be missing and is always written. -/
def field (c : Codec α) (name : String) (get : σ → α) (set : σ → α → σ) : Field σ :=
  ⟨name, false, fun d x => (c.read d).map (set x), fun x => some (c.write (get x))⟩

/-- A field that must be there. -/
def required (c : Codec α) (name : String) (get : σ → α) (set : σ → α → σ) : Field σ :=
  ⟨name, true, fun d x => (c.read d).map (set x), fun x => some (c.write (get x))⟩

/-- A field that may be missing or null and is written only if it holds something. -/
def optional (c : Codec α) (name : String) (get : σ → Option α) (set : σ → Option α → σ) : Field σ :=
  ⟨name, false, fun d x => (c.option.read d).map (set x), fun x => (get x).map c.write⟩

end Codec

namespace Record

variable {σ : Type}

/-- Reads the fields of an object in the order they are written. Unknown names are skipped and a
known one may stand once. -/
def readFields (r : Record σ) : List (String × Draft) → List String → σ → Except Misfit (List String × σ)
  | [], seen, x => .ok (seen, x)
  | (key, d) :: rest, seen, x =>
    match r.fields.find? (·.name == key) with
    | none => readFields r rest seen x
    | some f =>
      if key ∈ seen then .error (.duplicateField key)
      else (f.read d x).bind fun x => readFields r rest (key :: seen) x

/-- Reads the items of an array into the fields by position. Fields at the end may be missing if
they are not required. -/
def readItems (r : Record σ) (total : Nat) : List (Field σ) → List Draft → Nat → σ → Except Misfit σ
  | [], [], _, x => .ok x
  | [], _ :: _, _, _ => .error (.tooLong total)
  | f :: fields, [], i, x =>
    if f.required then .error (.tooShort i r.name r.fields.length)
    else readItems r total fields [] (i + 1) x
  | f :: fields, d :: items, i, x => (f.read d x).bind fun x => readItems r total fields items (i + 1) x

/-- Reads a record from an object, or from an array of its fields in order. -/
def read (r : Record σ) : Reader σ
  | .object entries => do
    let (seen, x) ← r.readFields entries [] r.blank
    match r.fields.find? fun f => f.required && !seen.contains f.name with
    | some f => .error (.missingField f.name)
    | none => .ok x
  | .array items => r.readItems items.length r.fields items 0 r.blank
  | d => .error (.wrongType d.found ("struct " ++ r.name))

def write (r : Record σ) (x : σ) : Json :=
  .object (r.fields.filterMap fun f => (f.write x).map fun value => (f.name, value))

/-- Reads a record from a value. -/
def decode (r : Record σ) (value : Json) : Except Misfit σ :=
  r.read value.draft

/-- Reads a record from JSON text. -/
def ofText? (r : Record σ) (s : String) : Option σ :=
  (Draft.ofText? s).bind fun d => (r.read d).toOption

def codec (r : Record σ) : Codec σ :=
  ⟨r.read, r.write⟩

end Record

end CestWriter.Json
