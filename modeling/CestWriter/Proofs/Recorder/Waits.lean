import CestWriter.Recorder.Registration
import Mathlib.Tactic.Ring

/-! # Waits in machine numbers

The wait after failures in a row is counted in numbers of 32 and 64 bits that stop at their largest
value. None of these stops is ever seen, since the longest wait is reached before. -/

namespace CestWriter

namespace Duration

theorem nanos_ofMillis {n : Nat} (h : n < 2 ^ 64) : (ofMillis (.ofNat n)).nanos = n * 10 ^ 6 := by
  show (UInt64.ofNat n).toNat * nanosPerMilli = n * 10 ^ 6
  rw [UInt64.toNat_ofNat', Nat.mod_eq_of_lt h]
  rfl

theorem nanos_scale (d : Duration) (k : UInt32) :
    (d.scale k).nanos = min (d.nanos * k.toNat) longestNanos :=
  rfl

theorem nanos_shorter (d d' : Duration) : (d.shorter d').nanos = min d.nanos d'.nanos := by
  rw [shorter]
  split_ifs with h
  · exact (min_eq_left h).symm
  · exact (min_eq_right (Nat.le_of_not_le h)).symm

end Duration

namespace Registration

/-- Milliseconds to wait after so many failures in a row, in numbers without bounds. -/
def lawfulWait (interval errors : Nat) : Nat :=
  min (interval * 2 ^ errors) 30000

theorem lawfulWait_pos {interval : Nat} (h : 0 < interval) (errors : Nat) :
    0 < lawfulWait interval errors :=
  lt_min (Nat.mul_pos h (Nat.two_pow_pos errors)) (by decide)

/-- An interval beyond the longest wait is never waited for. -/
theorem lawfulWait_eq_longest {interval errors : Nat} (h : 30000 ≤ interval * 2 ^ errors) :
    lawfulWait interval errors = 30000 :=
  min_eq_right h

/-- The count of failures in a row, as it is kept in 32 bits. -/
def Counts (errors : UInt32) (failures : Nat) : Prop :=
  errors.toNat = min failures (2 ^ 32 - 1)

namespace Counts

variable {errors : UInt32} {failures : Nat}

theorem zero : Counts 0 0 :=
  rfl

theorem succ (h : Counts errors failures) (e : Wire.Failure) :
    Counts (errorsAfter errors (.error e)) (failures + 1) := by
  have hlt := errors.toNat_lt
  rw [Counts] at h ⊢
  rw [errorsAfter]
  split_ifs with hfull
  · subst hfull
    rw [h]
    have hfull : (2 : Nat) ^ 32 - 1 = min failures (2 ^ 32 - 1) := h
    omega
  · have hne : errors.toNat ≠ 2 ^ 32 - 1 := fun he => hfull (UInt32.toNat_inj.mp he)
    rw [UInt32.toNat_add, show (1 : UInt32).toNat = 1 from rfl]
    omega

/-- Below 32 failures the multiplier is a power of two; from there on it is more than any wait. -/
theorem multiplier_cases (h : Counts errors failures) :
    failures < 32 ∧ (multiplier errors).toNat = 2 ^ failures ∨
      32 ≤ failures ∧ (multiplier errors).toNat = 2 ^ 32 - 1 := by
  rw [Counts] at h
  rw [multiplier]
  split_ifs with hsmall <;>
    rw [UInt32.lt_iff_toNat_lt, show (32 : UInt32).toNat = 32 from rfl] at hsmall
  · have he : errors.toNat = failures := by omega
    have hpow : 2 ^ failures < 2 ^ 32 := Nat.pow_lt_pow_right (by decide) (by omega)
    refine .inl ⟨by omega, ?_⟩
    rw [UInt32.toNat_shiftLeft, he, Nat.mod_eq_of_lt (by omega : failures < 32),
      show (1 : UInt32).toNat = 1 from rfl, Nat.one_shiftLeft, Nat.mod_eq_of_lt hpow]
  · exact .inr ⟨by omega, rfl⟩

end Counts

/-- Waits are those of the law, whatever the numbers are counted in. -/
theorem nanos_backoff {interval failures : Nat} {errors : UInt32} (hpos : 0 < interval)
    (hfits : interval < 2 ^ 64) (h : Counts errors failures) :
    (backoff (.ofMillis (.ofNat interval)) errors).nanos = lawfulWait interval failures * 10 ^ 6 := by
  have hcap : 30000 * 10 ^ 6 ≤ longestNanos := by
    rw [longestNanos]
    omega
  have hsame : min (interval * (multiplier errors).toNat) 30000 = lawfulWait interval failures := by
    rcases h.multiplier_cases with ⟨-, hm⟩ | ⟨hmany, hm⟩
    · rw [hm, lawfulWait]
    · have hpow : 2 ^ 32 ≤ 2 ^ failures := Nat.pow_le_pow_right (by decide) hmany
      have hbig : 30000 ≤ interval * 2 ^ failures :=
        (by omega : 30000 ≤ 2 ^ failures).trans (Nat.le_mul_of_pos_left _ hpos)
      rw [hm, lawfulWait, min_eq_right hbig, min_eq_right (by omega)]
  calc (backoff (.ofMillis (.ofNat interval)) errors).nanos
      = min (min (interval * 10 ^ 6 * (multiplier errors).toNat) longestNanos) (30000 * 10 ^ 6) := by
        rw [backoff, Duration.nanos_shorter, Duration.nanos_scale, Duration.nanos_ofMillis hfits]
        rfl
    _ = min (interval * (multiplier errors).toNat * 10 ^ 6) (30000 * 10 ^ 6) := by
        rw [min_assoc, min_eq_right hcap, Nat.mul_right_comm]
    _ = lawfulWait interval failures * 10 ^ 6 := by rw [Nat.mul_min_mul_right, hsame]

end Registration

end CestWriter
