import CestWriter.Number.Double

/-! The shortest decimal that reads back as a given double, and the text made of it. -/

namespace CestWriter.Number

/-- The number `digits * 10 ^ exponent`. -/
structure Shortest where
  digits : Nat
  exponent : Int

namespace Shortest

/-- `a * 2 ^ p` over `10 ^ k` as a fraction. -/
def overPowerOfTen (a : Nat) (p k : Int) : Nat × Nat :=
  let (n, d) := if 0 ≤ p then (a * Nat.pow 2 p.toNat, 1) else (a, Nat.pow 2 (-p).toNat)
  if 0 ≤ k then (n, d * Nat.pow 10 k.toNat) else (n * Nat.pow 10 (-k).toNat, d)

/-- The multiple of `10 ^ k` nearest to the double `x`, among the two neighbours of `x` that lie
in its rounding interval. The interval's ends are half-way to the next doubles and belong to it
when the mantissa is even; below a power of two the lower half is half as wide. -/
def onGrid? (x : Double) (k : Int) : Option Nat :=
  let m := 4 * x.mantissa
  let low := if x.mantissa = Nat.pow 2 52 ∧ -1074 < x.exponent then m - 1 else m - 2
  let p := x.exponent - 2
  let (v, den) := overPowerOfTen m p k
  let lowest := (overPowerOfTen low p k).1
  let highest := (overPowerOfTen (m + 2) p k).1
  let inside (d : Nat) : Bool :=
    0 < d && (if x.mantissa % 2 = 0 then lowest ≤ d * den && d * den ≤ highest
      else lowest < d * den && d * den < highest)
  let down := v / den
  let best := roundEven v den
  if inside best then some best
  else if inside down then some down
  else if inside (down + 1) then some (down + 1)
  else none

/-- The coarsest decimal grid with a point in the rounding interval gives the fewest digits. -/
def of (x : Double) : Shortest :=
  let grids := (List.range 660).map fun (i : Nat) => (309 : Int) - i
  (grids.findSome? fun k => (onGrid? x k).map (Shortest.mk · k)).getD ⟨x.mantissa, x.exponent⟩

/-- Positional for decimal exponents from -5 to 15, with at least one place after the point;
otherwise one digit before the point, and an exponent with a sign. -/
def text (s : Shortest) : String :=
  let ds := Nat.toDigits 10 s.digits
  let e : Int := s.exponent + ds.length - 1
  let zeros (n : Int) : List Char := List.replicate n.toNat '0'
  let cs : List Char :=
    if 0 ≤ e ∧ e ≤ 15 then
      let places := (e + 1).toNat
      if ds.length ≤ places then ds ++ zeros (e + 1 - ds.length) ++ ['.', '0']
      else ds.take places ++ ['.'] ++ ds.drop places
    else if -5 ≤ e ∧ e < 0 then ['0', '.'] ++ zeros (-e - 1) ++ ds
    else
      ds.take 1 ++ (if ds.length = 1 then [] else ['.'] ++ ds.drop 1) ++ ['e'] ++
        [if e < 0 then '-' else '+'] ++ Nat.toDigits 10 e.natAbs
  String.ofList cs

end Shortest

/-- The text of a double; zero is `0.0`. -/
def Double.text (x : Double) : String :=
  (if x.negative then "-" else "") ++ (if x.isZero then "0.0" else (Shortest.of x).text)

end CestWriter.Number
