/-! Spans of time. Their seconds are counted in 64 bits, so there is a longest one. -/

namespace CestWriter

/-- The nanoseconds of the longest span. -/
def longestNanos : Nat := 18446744073709551616 * 1000000000 - 1

structure Duration where
  nanos : Nat
  fits : nanos ≤ longestNanos

namespace Duration

def nanosPerMilli : Nat := 1000000

theorem fits_millis (n : UInt64) : n.toNat * nanosPerMilli ≤ longestNanos := by
  have h := n.toNat_lt
  simp only [nanosPerMilli, longestNanos]
  omega

def ofMillis (n : UInt64) : Duration :=
  ⟨n.toNat * nanosPerMilli, fits_millis n⟩

/-- Whole milliseconds. -/
def millis (d : Duration) : Nat :=
  d.nanos / nanosPerMilli

/-- A multiple of a span, or the longest span if the multiple is beyond it. -/
def scale (d : Duration) (k : UInt32) : Duration :=
  ⟨min (d.nanos * k.toNat) longestNanos, Nat.min_le_right ..⟩

/-- The shorter of two spans. -/
def shorter (d d' : Duration) : Duration :=
  if d.nanos ≤ d'.nanos then d else d'

end Duration

end CestWriter
