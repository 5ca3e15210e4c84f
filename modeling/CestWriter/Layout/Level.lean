import CestWriter.Layout.Fragment

/-! The level that the lines of a method body have reached. It never goes below zero: a shift that
would take it there stops at zero and is remembered. -/

namespace CestWriter

structure Level where
  depth : Nat
  underflowed : Bool
  deriving DecidableEq

namespace Level

def start : Level :=
  ⟨0, false⟩

def shift (l : Level) (change : Int) : Level :=
  let depth : Int := l.depth + change
  if depth < 0 then ⟨0, true⟩ else ⟨depth.toNat, l.underflowed⟩

/-- The level at which a fragment's lines begin. -/
def base (l : Level) (f : Fragment) : Nat :=
  (l.depth + f.before).toNat

/-- The lines of a fragment at their final levels, and the level after them. -/
def place (l : Level) (f : Fragment) : List Line × Level :=
  let inner := l.shift f.before
  (f.lines.map (Line.raise inner.depth), inner.shift f.after)

end Level

end CestWriter
