import CestWriter.Number.Double
import CestWriter.Number.Whole

/-! Decimal numerals with an optional point and exponent, and their nearest double. -/

namespace CestWriter.Number

/-- The number `digits * 10 ^ exponent`, negated if `negative`. -/
structure Decimal where
  negative : Bool
  digits : Nat
  exponent : Int
  deriving DecidableEq

/-- Takes off an optional sign; true stands for minus. -/
def takeSign : List Char → Bool × List Char
  | '-' :: cs => (true, cs)
  | '+' :: cs => (false, cs)
  | cs => (false, cs)

/-- The exponent part that ends a numeral: nothing, or `e` and a signed run of digits. -/
def exponentPart? : List Char → Option Int
  | [] => some 0
  | c :: cs =>
    let (negative, ds) := takeSign cs
    if (c = 'e' ∨ c = 'E') ∧ ds ≠ [] ∧ ds.all Char.isDigit then
      some (if negative then -(ofDigits ds : Int) else ofDigits ds)
    else none

namespace Decimal

/-- Digits before and after a point, whichever there are, and the rest. -/
def takeMantissa (cs : List Char) : List Char × List Char × List Char :=
  let whole := cs.takeWhile Char.isDigit
  match cs.dropWhile Char.isDigit with
  | '.' :: rest => (whole, rest.takeWhile Char.isDigit, rest.dropWhile Char.isDigit)
  | rest => (whole, [], rest)

/-- Reads an optional sign, digits with an optional point among or around them (at least one
digit), and an optional exponent. -/
def ofChars? (cs : List Char) : Option Decimal :=
  let (negative, body) := takeSign cs
  let (whole, fraction, rest) := takeMantissa body
  if whole ++ fraction = [] then none
  else (exponentPart? rest).map fun e =>
    ⟨negative, ofDigits (whole ++ fraction), e - fraction.length⟩

/-- The value as a fraction. -/
def fraction (x : Decimal) : Nat × Nat :=
  if 0 ≤ x.exponent then (x.digits * Nat.pow 10 x.exponent.toNat, 1)
  else (x.digits, Nat.pow 10 (-x.exponent).toNat)

/-- The nearest double. Exponents far outside the range of doubles are decided without working
out the power of ten: `10 ^ 400` is beyond the largest double, and a value below `2 ^ -1100`
rounds to zero. -/
def nearest? (x : Decimal) : Option Double :=
  if x.digits = 0 then some (Double.zero x.negative)
  else if 400 < x.exponent then none
  else if x.digits.log2 + 1101 + 3 * x.exponent < 0 then some (Double.zero x.negative)
  else Double.nearest? x.negative x.fraction.1 x.fraction.2

end Decimal

/-- Reads a numeral, rounds it to the nearest double and takes the floor, kept in 64 bits. -/
def floor64? (s : String) : Option Int :=
  (Decimal.ofChars? s.toList).bind fun x => x.nearest?.map fun d => saturate64 d.floor

end CestWriter.Number
