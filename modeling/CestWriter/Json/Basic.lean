import CestWriter.Number.Double

/-! JSON values. An object is a list of fields; a value read from text has its keys ascending and
each of them once. -/

namespace CestWriter

/-- A whole number that fits 64 bits, signed or unsigned, or else a double. -/
inductive Json.Number
  | whole (n : Int)
  | real (x : Number.Double)

inductive Json
  | null
  | bool (b : Bool)
  | number (n : Json.Number)
  | string (s : String)
  | array (items : List Json)
  | object (fields : List (String × Json))

namespace Json

def ofNat (n : Nat) : Json :=
  .number (.whole n)

def ofInt (n : Int) : Json :=
  .number (.whole n)

/-- The value under `key`, for an object that has one. -/
def get? (key : String) : Json → Option Json
  | object fields => fields.lookup key
  | _ => none

def string? : Json → Option String
  | string s => some s
  | _ => none

def bool? : Json → Option Bool
  | bool b => some b
  | _ => none

def array? : Json → Option (List Json)
  | array items => some items
  | _ => none

def nat? : Json → Option Nat
  | number (.whole n) => n.toNat?
  | _ => none

def isNull : Json → Bool
  | null => true
  | _ => false

/-- Null and false are the negative answers. -/
def isNegative : Json → Bool
  | null | bool false => true
  | _ => false

end Json

end CestWriter
