/-! Finite doubles as exact values, and rounding a fraction to the nearest of them. -/

namespace CestWriter.Number

/-- The double of magnitude `mantissa * 2 ^ exponent`. In lowest position the mantissa is below
`2 ^ 53` and the exponent at least `-1074`. -/
structure Double where
  negative : Bool
  mantissa : Nat
  exponent : Int
  deriving DecidableEq

/-- `num / den` to the nearest whole number, a half to the even neighbour. -/
def roundEven (num den : Nat) : Nat :=
  let q := num / den
  let r := num % den
  if 2 * r < den then q else if den < 2 * r then q + 1 else if q % 2 = 0 then q else q + 1

/-- `num / den` as a fraction after division by `2 ^ e`. -/
def descale (num den : Nat) (e : Int) : Nat × Nat :=
  if 0 ≤ e then (num, den * Nat.pow 2 e.toNat) else (num * Nat.pow 2 (-e).toNat, den)

/-- The exponent of the power of two at or below `num / den`. -/
def binade (num den : Nat) : Int :=
  let e : Int := num.log2 - den.log2
  let (n, d) := descale num den e
  if d ≤ n then e else e - 1

/-- The spacing exponent of doubles around `num / den`: 53 bits of precision, never below the
smallest positive double. -/
def unitExponent (num den : Nat) : Int :=
  max (binade num den - 52) (-1074)

namespace Double

def zero (negative : Bool) : Double :=
  ⟨negative, 0, -1074⟩

def isZero (x : Double) : Bool :=
  x.mantissa == 0

/-- The double nearest to `num / den`, ties to the even mantissa; none beyond the largest. -/
def nearest? (negative : Bool) (num den : Nat) : Option Double :=
  if num = 0 then some (zero negative)
  else
    let e := unitExponent num den
    let (n, d) := descale num den e
    let m := roundEven n d
    let x : Double :=
      if m = Nat.pow 2 53 then ⟨negative, Nat.pow 2 52, e + 1⟩ else ⟨negative, m, e⟩
    if x.exponent ≤ 971 then some x else none

/-- The magnitude as a fraction. -/
def fraction (x : Double) : Nat × Nat :=
  if 0 ≤ x.exponent then (x.mantissa * Nat.pow 2 x.exponent.toNat, 1)
  else (x.mantissa, Nat.pow 2 (-x.exponent).toNat)

def times? (x y : Double) : Option Double :=
  nearest? (x.negative != y.negative) (x.fraction.1 * y.fraction.1) (x.fraction.2 * y.fraction.2)

/-- The rounded quotient; `y` is not zero where this is used. -/
def over? (x y : Double) : Option Double :=
  nearest? (x.negative != y.negative) (x.fraction.1 * y.fraction.2) (x.fraction.2 * y.fraction.1)

/-- The greatest whole number not above `x`. -/
def floor (x : Double) : Int :=
  let n : Int := x.fraction.1
  (if x.negative then -n else n).fdiv x.fraction.2

end Double

/-- Brings a number into the signed 64-bit range, to the nearer end if it lies outside. -/
def saturate64 (n : Int) : Int :=
  max (-9223372036854775808) (min n 9223372036854775807)

end CestWriter.Number
