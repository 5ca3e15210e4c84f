/-! Whole numbers written as ASCII digits. -/

namespace CestWriter.Number

def digitValue (c : Char) : Nat :=
  c.toNat - 48

/-- The value of a run of decimal digits, most significant first. -/
def ofDigits (ds : List Char) : Nat :=
  ds.foldl (fun n d => 10 * n + digitValue d) 0

/-- Reads one or more digits with an optional leading plus; values above `limit` are refused. -/
def whole? (limit : Nat) (s : String) : Option Nat :=
  let ds := match s.toList with
    | '+' :: rest => rest
    | cs => cs
  if ds ≠ [] ∧ ds.all Char.isDigit ∧ ofDigits ds ≤ limit then some (ofDigits ds) else none

/-- The largest number in 32 bits. -/
def limit32 : Nat := 4294967295

/-- The largest number in 64 bits. -/
def limit64 : Nat := 18446744073709551615

end CestWriter.Number
