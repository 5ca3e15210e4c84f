import CestWriter.Json.Basic
import CestWriter.Number.Whole

/-! Numbers in JSON text. Whole numbers in 64 bits are exact. All others are doubles, read in two
roundings: the leading digits as far as they fit 64 bits, then one step by a power of ten. -/

namespace CestWriter.Json.Numeral

open CestWriter.Number (Double digitValue limit64 ofDigits)

/-- Extends `n` by digits as long as it fits 64 bits; the digits left over come back. -/
def extend (n : Nat) : List Char → Nat × List Char
  | [] => (n, [])
  | d :: ds => if limit64 < 10 * n + digitValue d then (n, d :: ds) else extend (10 * n + digitValue d) ds

def tenTo? (k : Nat) : Option Double :=
  Double.nearest? false (Nat.pow 10 k) 1

/-- `x * 10 ^ e` in one rounding step, or for very small results in steps of `10 ^ 308`; none
beyond the largest double. -/
def scale? (x : Double) (e : Int) : Option Double :=
  if e.natAbs ≤ 308 then
    (tenTo? e.natAbs).bind fun p => if 0 ≤ e then x.times? p else x.over? p
  else if x.isZero then some x
  else if h : 0 ≤ e then none
  else (tenTo? 308).bind fun p => (x.over? p).bind fun y => scale? y (e + 308)
termination_by e.natAbs
decreasing_by omega

/-- The number with the given digits before and after the point and the given exponent. A minus
sign on a whole number leads to a double when the number is zero or below `-2 ^ 63`. -/
def value? (negative : Bool) (whole : List Char) (fraction : Option (List Char))
    (exponent : Option Int) : Option Json.Number :=
  let (n, left) := extend 0 whole
  match fraction, exponent, left with
  | none, none, [] =>
    if !negative then some (.whole n)
    else if n = 0 ∨ Nat.pow 2 63 < n then (Double.nearest? true n 1).map .real
    else some (.whole (-n))
  | _, _, _ =>
    let places := fraction.getD []
    let (m, unused) := extend n places
    let e : Int := left.length - (places.length - unused.length : Nat) + exponent.getD 0
    (Double.nearest? negative m 1).bind fun x => (scale? x e).map .real

/-- The digits before the point: a zero alone, or digits that do not begin with zero. -/
def takeWhole? : List Char → Option (List Char × List Char)
  | '0' :: rest => some (['0'], rest)
  | cs =>
    let ds := cs.takeWhile Char.isDigit
    if ds = [] then none else some (ds, cs.dropWhile Char.isDigit)

/-- A point and the digits that must follow it, if there is a point. -/
def takeFraction? : List Char → Option (Option (List Char) × List Char)
  | '.' :: rest =>
    let ds := rest.takeWhile Char.isDigit
    if ds = [] then none else some (some ds, rest.dropWhile Char.isDigit)
  | cs => some (none, cs)

/-- An exponent mark, an optional sign and the digits that must follow, if there is a mark. -/
def takeExponent? : List Char → Option (Option Int × List Char)
  | c :: rest =>
    if c = 'e' ∨ c = 'E' then
      let (negative, body) := match rest with
        | '-' :: r => (true, r)
        | '+' :: r => (false, r)
        | r => (false, r)
      let ds := body.takeWhile Char.isDigit
      if ds = [] then none
      else some (some (if negative then -(ofDigits ds : Int) else ofDigits ds), body.dropWhile Char.isDigit)
    else some (none, c :: rest)
  | [] => some (none, [])

/-- Takes a number off the front of a text. The inner option is empty for a number beyond the
doubles. -/
def take? (cs : List Char) : Option (Option Json.Number × List Char) := do
  let (negative, cs) := match cs with
    | '-' :: rest => (true, rest)
    | cs => (false, cs)
  let (whole, cs) ← takeWhole? cs
  let (fraction, cs) ← takeFraction? cs
  let (exponent, cs) ← takeExponent? cs
  some (value? negative whole fraction exponent, cs)

end CestWriter.Json.Numeral
