import Mathlib.Algebra.Order.Field.Power
import Mathlib.Algebra.Order.Round
import Mathlib.Data.Int.Log
import Mathlib.Data.Rat.Floor
import Mathlib.Tactic.GCongr
import Mathlib.Tactic.Linarith
import Mathlib.Tactic.NormNum
import Mathlib.Tactic.Positivity
import Mathlib.Tactic.Ring

/-! # Rounding to the nearest double

Doubles are taken as rational numbers, and as if there were no largest one. Every number has one
nearest double, and rounding keeps the order of numbers. -/

namespace CestWriter.Number

/-! ## Numbers of a few bits -/

/-- A number of at most `bits` significant bits, none of them below `2 ^ lowest`. -/
def HasBits (bits : ℕ) (lowest : ℤ) (v : ℚ) : Prop :=
  ∃ m e : ℤ, |m| < 2 ^ bits ∧ lowest ≤ e ∧ v = m * 2 ^ e

/-- A double, however large. -/
def IsDouble (v : ℚ) : Prop :=
  HasBits 53 (-1074) v

/-- A double whose last place is zero: one bit fewer would do. -/
def IsEvenDouble (v : ℚ) : Prop :=
  HasBits 52 (-1073) v

namespace HasBits

variable {bits : ℕ} {lowest e : ℤ} {v : ℚ}

theorem zero : HasBits bits lowest 0 :=
  ⟨0, lowest, by simp, le_rfl, by simp⟩

theorem pow (hb : 0 < bits) (h : lowest ≤ e) : HasBits bits lowest (2 ^ e) :=
  ⟨1, e, by simpa using one_lt_pow₀ (by norm_num : (1 : ℤ) < 2) hb.ne', h, by simp⟩

theorem neg (h : HasBits bits lowest v) : HasBits bits lowest (-v) := by
  obtain ⟨m, e, hm, he, rfl⟩ := h
  exact ⟨-m, e, by rwa [abs_neg], he, by push_cast; ring⟩

/-- A multiple of a power of two that has too many bits by at most one has a power of two for its
value. -/
theorem of_multiple {m : ℤ} (hb : 0 < bits) (he : lowest ≤ e) (hm : |m| ≤ 2 ^ bits) :
    HasBits bits lowest (m * 2 ^ e) := by
  rcases hm.lt_or_eq with hlt | heq
  · exact ⟨m, e, hlt, he, rfl⟩
  · have hpow : HasBits bits lowest (2 ^ (bits + e)) := pow hb (by omega)
    have hsplit : (2 : ℚ) ^ (bits + e) = 2 ^ bits * 2 ^ e := by
      rw [zpow_add₀ (by norm_num), zpow_natCast]
    rcases (abs_eq (by positivity)).mp heq with rfl | rfl
    · simpa [hsplit] using hpow
    · simpa [hsplit] using hpow.neg

/-- A number that is large enough for its bits is a multiple of a power of two. -/
theorem exists_multiple (h : HasBits bits lowest v) (hv : e = lowest ∨ 2 ^ (e + bits - 1) ≤ |v|) :
    ∃ k : ℤ, v = k * 2 ^ e := by
  obtain ⟨m, f, hm, hf, rfl⟩ := h
  have hle : e ≤ f := by
    rcases hv with rfl | hv
    · exact hf
    · have hlt : (2 : ℚ) ^ (e + bits - 1) < 2 ^ (bits + f) := by
        calc (2 : ℚ) ^ (e + bits - 1) ≤ |(m : ℚ) * 2 ^ f| := hv
          _ = |(m : ℚ)| * 2 ^ f := by rw [abs_mul, abs_of_pos (by positivity : (0 : ℚ) < 2 ^ f)]
          _ < 2 ^ bits * 2 ^ f := by
            have hcast : |(m : ℚ)| < 2 ^ bits := by exact_mod_cast hm
            gcongr
          _ = 2 ^ (bits + f) := by rw [zpow_add₀ (by norm_num), zpow_natCast]
      have := (zpow_lt_zpow_iff_right₀ (by norm_num : (1 : ℚ) < 2)).mp hlt
      omega
  refine ⟨m * 2 ^ (f - e).toNat, ?_⟩
  have hsplit : (2 : ℚ) ^ f = 2 ^ (f - e).toNat * 2 ^ e := by
    rw [← zpow_natCast, ← zpow_add₀ (by norm_num), Int.toNat_of_nonneg (by omega)]
    congr 1
    omega
  rw [hsplit]
  push_cast
  ring

end HasBits

/-! ## The nearest double -/

/-- `v` is the double nearest to `r`. If another one is as near, the last place of `v` is zero. -/
structure IsNearest (r v : ℚ) : Prop where
  isDouble : IsDouble v
  closest : ∀ u, IsDouble u → |r - v| ≤ |r - u|
  even : ∀ u, IsDouble u → u ≠ v → |r - u| = |r - v| → IsEvenDouble v

namespace IsNearest

variable {r s u v w : ℚ}

/-- A double is its own nearest. -/
theorem refl (h : IsDouble r) : IsNearest r r where
  isDouble := h
  closest u _ := by simp
  even u _ hne he := absurd (by simpa [sub_eq_zero] using he) hne.symm

theorem neg (h : IsNearest r v) : IsNearest (-r) (-v) := by
  have hflip (a b : ℚ) : |-a - b| = |a - -b| := by
    rw [← abs_neg]
    congr 1
    ring
  refine ⟨h.isDouble.neg, fun u hu => ?_, fun u hu hne he => ?_⟩
  · rw [hflip, hflip, neg_neg]
    exact h.closest (-u) hu.neg
  · rw [hflip, hflip, neg_neg] at he
    exact (h.even (-u) hu.neg (fun heq => hne (by rw [← heq, neg_neg])) he).neg

/-- Rounding does not go past a double. -/
theorem le_of_le (h : IsNearest r v) (hu : IsDouble u) (hle : u ≤ r) : u ≤ v := by
  by_contra hlt
  have hclosest := h.closest u hu
  rw [abs_of_nonneg (by linarith), abs_of_nonneg (by linarith)] at hclosest
  linarith

theorem ge_of_ge (h : IsNearest r v) (hu : IsDouble u) (hle : r ≤ u) : v ≤ u := by
  have := h.neg.le_of_le hu.neg (neg_le_neg hle)
  linarith

end IsNearest

/-! ## Rounding to a whole number -/

/-- `m` is the whole number nearest to `x`, the even one of two. -/
structure IsRounded (x : ℚ) (m : ℤ) : Prop where
  half : |x - m| ≤ 1 / 2
  even : |x - m| = 1 / 2 → Even m

theorem exists_isRounded (x : ℚ) : ∃ m, IsRounded x m := by
  have hhalf : |x - round x| ≤ 1 / 2 := abs_sub_round x
  by_cases heven : |x - round x| = 1 / 2 → Even (round x)
  · exact ⟨round x, hhalf, heven⟩
  -- The neighbour on the other side of a half is even instead.
  · obtain ⟨htie, hodd⟩ := Classical.not_imp.mp heven
    rw [Int.not_even_iff_odd] at hodd
    rcases (abs_eq (by norm_num)).mp htie with h | h
    · refine ⟨round x + 1, ?_, fun _ => hodd.add_one⟩
      rw [Int.cast_add, Int.cast_one, ← sub_sub, h]
      norm_num [abs_of_neg]
    · refine ⟨round x - 1, ?_, fun _ => hodd.sub_odd odd_one⟩
      rw [Int.cast_sub, Int.cast_one, ← sub_add, h]
      norm_num [abs_of_pos]

namespace IsRounded

variable {x : ℚ} {m k : ℤ}

theorem of_lt (h : |x - m| < 1 / 2) : IsRounded x m :=
  ⟨h.le, fun he => absurd he h.ne⟩

theorem closest (h : IsRounded x m) (k : ℤ) : |x - m| ≤ |x - k| := by
  rcases eq_or_ne k m with rfl | hne
  · exact le_rfl
  · have hone : (1 : ℚ) ≤ |(m : ℚ) - k| := by
      exact_mod_cast Int.one_le_abs (sub_ne_zero.mpr hne.symm)
    have htriangle := abs_sub_le (m : ℚ) x k
    rw [abs_sub_comm (m : ℚ) x] at htriangle
    linarith [h.half]

/-- Only an even whole number has another one as near. -/
theorem even_of_tie (h : IsRounded x m) (hne : k ≠ m) (he : |x - k| = |x - m|) : Even m := by
  have hone : (1 : ℚ) ≤ |(m : ℚ) - k| := by
    exact_mod_cast Int.one_le_abs (sub_ne_zero.mpr hne.symm)
  have htriangle := abs_sub_le (m : ℚ) x k
  rw [abs_sub_comm (m : ℚ) x, he] at htriangle
  exact h.even (le_antisymm h.half (by linarith))

theorem le_of_le (h : IsRounded x m) (hk : k ≤ x) : k ≤ m := by
  have hlt : (k : ℚ) < m + 1 := by linarith [(le_abs_self _).trans h.half]
  exact Int.lt_add_one_iff.mp (by exact_mod_cast hlt)

theorem abs_le {b : ℕ} (h : IsRounded x m) (hx : |x| < 2 ^ b) : |m| ≤ 2 ^ b := by
  have hm : |(m : ℚ)| < 2 ^ b + 1 := by
    have htriangle := abs_sub_abs_le_abs_sub (m : ℚ) x
    rw [abs_sub_comm (m : ℚ) x] at htriangle
    linarith [h.half]
  have hlt : |m| < 2 ^ b + 1 := by exact_mod_cast hm
  omega

end IsRounded

/-! ## Where the doubles around a number stand -/

/-- The exponent of the distance of the doubles around a positive number. -/
def spacing (r : ℚ) : ℤ :=
  max (Int.log 2 r - 52) (-1074)

section

variable {r u : ℚ} {m : ℤ}

theorem le_spacing (r : ℚ) : -1074 ≤ spacing r :=
  le_max_right _ _

theorem spacing_cases (hr : 0 < r) : spacing r = -1074 ∨ 2 ^ (spacing r + 52) ≤ r := by
  rcases le_total (Int.log 2 r - 52) (-1074) with h | h
  · exact .inl (max_eq_right h)
  · refine .inr ?_
    rw [spacing, max_eq_left h, sub_add_cancel]
    exact_mod_cast Int.zpow_log_le_self (by norm_num) hr

theorem lt_of_spacing (r : ℚ) : r < 2 ^ (spacing r + 53) := by
  have hlog : r < 2 ^ (Int.log 2 r + 1) := by
    exact_mod_cast Int.lt_zpow_succ_log_self (by norm_num) r
  refine hlog.trans_le (zpow_le_zpow_right₀ (by norm_num) ?_)
  have : Int.log 2 r - 52 ≤ spacing r := le_max_left _ _
  omega

theorem abs_sub_mul_zpow (r : ℚ) (k e : ℤ) :
    |r - k * 2 ^ e| = |r / 2 ^ e - k| * 2 ^ e := by
  have hunit : (0 : ℚ) < 2 ^ e := by positivity
  rw [← abs_of_pos hunit, ← abs_mul, abs_of_pos hunit, sub_mul, div_mul_cancel₀ r hunit.ne']

theorem pow_spacing_add (r : ℚ) (b : ℕ) :
    (2 : ℚ) ^ (spacing r + b) = (2 ^ b : ℤ) * 2 ^ spacing r := by
  rw [zpow_add₀ (by norm_num), zpow_natCast]
  push_cast
  ring

/-- In units of the distance around it, a number has no more than 53 bits. -/
theorem abs_le_of_isRounded (hr : 0 < r) (hm : IsRounded (r / 2 ^ spacing r) m) :
    |m| ≤ 2 ^ 53 := by
  refine hm.abs_le ?_
  rw [abs_of_pos (by positivity), div_lt_iff₀ (by positivity)]
  exact_mod_cast (lt_of_spacing r).trans_eq (pow_spacing_add r 53)

/-- Above the least distance it has 53 bits. -/
theorem le_of_isRounded (hr : 0 < r) (hm : IsRounded (r / 2 ^ spacing r) m) :
    spacing r = -1074 ∨ 2 ^ 52 ≤ m := by
  refine (spacing_cases hr).imp_right fun hlow => hm.le_of_le ?_
  rw [le_div_iff₀ (by positivity), ← pow_spacing_add]
  exact_mod_cast hlow

/-- A double that is no multiple of the distance around `r` is farther from `r` than a multiple
is. -/
theorem abs_sub_lt_of_not_multiple (hr : 0 < r) (hm : IsRounded (r / 2 ^ spacing r) m)
    (hu : IsDouble u) (hnot : ¬ ∃ k : ℤ, u = k * 2 ^ spacing r) :
    |r - m * 2 ^ spacing r| < |r - u| := by
  have hbelow : ¬ (spacing r = -1074 ∨ 2 ^ (spacing r + (53 : ℕ) - 1) ≤ |u|) :=
    fun h => hnot (hu.exists_multiple h)
  rw [not_or, not_le, show spacing r + (53 : ℕ) - 1 = spacing r + (52 : ℕ) by push_cast; ring]
    at hbelow
  have habove : 2 ^ (spacing r + (52 : ℕ)) ≤ r := (spacing_cases hr).resolve_left hbelow.1
  -- The least double of the same distance is a multiple of it, and stands between `u` and `r`.
  calc |r - m * 2 ^ spacing r| ≤ |r - (2 ^ 52 : ℤ) * 2 ^ spacing r| := by
        rw [abs_sub_mul_zpow, abs_sub_mul_zpow]
        exact mul_le_mul_of_nonneg_right (hm.closest _) (by positivity)
    _ = r - 2 ^ (spacing r + (52 : ℕ)) := by
        rw [← pow_spacing_add, abs_of_nonneg (sub_nonneg.mpr habove)]
    _ < r - u := sub_lt_sub_left ((le_abs_self u).trans_lt hbelow.2) r
    _ ≤ |r - u| := le_abs_self _

/-- Rounding to a whole number of distances, a half to an even one, gives the nearest double. -/
theorem isNearest_of_isRounded (hr : 0 < r) (hm : IsRounded (r / 2 ^ spacing r) m) :
    IsNearest r (m * 2 ^ spacing r) := by
  have hunit : (0 : ℚ) < 2 ^ spacing r := by positivity
  have hhigh := abs_le_of_isRounded hr hm
  refine ⟨.of_multiple (by norm_num) (le_spacing r) hhigh, fun u hu => ?_, fun u hu hne he => ?_⟩
  · by_cases hu' : ∃ k : ℤ, u = k * 2 ^ spacing r
    · obtain ⟨k, rfl⟩ := hu'
      rw [abs_sub_mul_zpow, abs_sub_mul_zpow]
      exact mul_le_mul_of_nonneg_right (hm.closest k) hunit.le
    · exact (abs_sub_lt_of_not_multiple hr hm hu hu').le
  · obtain ⟨k, rfl⟩ : ∃ k : ℤ, u = k * 2 ^ spacing r := by
      by_contra hnot
      exact (abs_sub_lt_of_not_multiple hr hm hu hnot).ne he.symm
    rw [abs_sub_mul_zpow, abs_sub_mul_zpow] at he
    obtain ⟨j, rfl⟩ : Even m :=
      hm.even_of_tie (fun hk => hne (by rw [hk])) (mul_right_cancel₀ hunit.ne' he)
    have hdouble : ((j + j : ℤ) : ℚ) * 2 ^ spacing r = j * 2 ^ (spacing r + 1) := by
      rw [zpow_add₀ (by norm_num)]
      push_cast
      ring
    have hlow := le_spacing r
    rw [hdouble]
    refine .of_multiple (by norm_num) (by omega) ?_
    rw [abs_le] at hhigh ⊢
    omega

end

/-! ## One nearest double -/

namespace IsNearest

variable {r s v w : ℚ}

theorem zero_iff : IsNearest 0 v ↔ v = 0 := by
  constructor
  · intro h
    have hclosest := h.closest 0 .zero
    simpa using hclosest
  · rintro rfl
    exact .refl .zero

/-- Every number has a nearest double. -/
theorem exists_nearest (r : ℚ) : ∃ v, IsNearest r v := by
  have hpos {r : ℚ} (hr : 0 < r) : ∃ v, IsNearest r v := by
    obtain ⟨m, hm⟩ := exists_isRounded (r / 2 ^ spacing r)
    exact ⟨_, isNearest_of_isRounded hr hm⟩
  rcases lt_trichotomy r 0 with hr | rfl | hr
  · obtain ⟨v, hv⟩ := hpos (neg_pos.mpr hr)
    exact ⟨-v, by simpa using hv.neg⟩
  · exact ⟨0, .refl .zero⟩
  · exact hpos hr

/-- An even double at least as large as the least one of the distance around `r` is a multiple of
two distances. -/
theorem exists_even_multiple (hr : 0 < r) (h : IsNearest r v) (hv : IsEvenDouble v) :
    ∃ k : ℤ, v = k * 2 ^ (spacing r + 1) := by
  refine hv.exists_multiple ?_
  rcases spacing_cases hr with hlow | hlow
  · exact .inl (by rw [hlow]; rfl)
  · have hbelow := h.le_of_le (.pow (by norm_num) (by linarith [le_spacing r])) hlow
    refine .inr ?_
    rw [show spacing r + 1 + (52 : ℕ) - 1 = spacing r + 52 by push_cast; ring]
    exact hbelow.trans (le_abs_self v)

theorem abs_sub_le_half (hr : 0 < r) (h : IsNearest r v) : |r - v| ≤ 2 ^ spacing r / 2 := by
  obtain ⟨m, hm⟩ := exists_isRounded (r / 2 ^ spacing r)
  calc |r - v| ≤ |r - m * 2 ^ spacing r| := h.closest _ (isNearest_of_isRounded hr hm).isDouble
    _ = |r / 2 ^ spacing r - m| * 2 ^ spacing r := abs_sub_mul_zpow _ _ _
    _ ≤ 1 / 2 * 2 ^ spacing r := mul_le_mul_of_nonneg_right hm.half (by positivity)
    _ = 2 ^ spacing r / 2 := by ring

theorem unique_of_pos (hr : 0 < r) (hv : IsNearest r v) (hw : IsNearest r w) : v = w := by
  by_contra hne
  -- Two nearest doubles are both even, and then too far from each other.
  have htie : |r - v| = |r - w| :=
    le_antisymm (hv.closest w hw.isDouble) (hw.closest v hv.isDouble)
  obtain ⟨j, hj⟩ := hv.exists_even_multiple hr (hv.even w hw.isDouble (Ne.symm hne) htie.symm)
  obtain ⟨k, hk⟩ := hw.exists_even_multiple hr (hw.even v hv.isDouble hne htie)
  have hone : (1 : ℚ) ≤ |(j : ℚ) - k| := by
    refine mod_cast Int.one_le_abs (sub_ne_zero.mpr fun hjk => hne ?_)
    rw [hj, hk, hjk]
  have hunit : (0 : ℚ) < 2 ^ spacing r := by positivity
  have hfar : 2 * 2 ^ spacing r ≤ |v - w| := by
    calc (2 : ℚ) * 2 ^ spacing r = 1 * 2 ^ (spacing r + 1) := by
          rw [zpow_add₀ (by norm_num)]
          ring
      _ ≤ |(j : ℚ) - k| * 2 ^ (spacing r + 1) := by gcongr
      _ = |v - w| := by
          rw [hj, hk, ← sub_mul, abs_mul, abs_of_pos (by positivity : (0 : ℚ) < 2 ^ (spacing r + 1))]
  have hnear : |v - w| ≤ |r - v| + |r - w| := by
    have htriangle := abs_sub_le v r w
    rwa [abs_sub_comm v r] at htriangle
  linarith [hv.abs_sub_le_half hr, hw.abs_sub_le_half hr]

/-- No number has two nearest doubles. -/
protected theorem unique (hv : IsNearest r v) (hw : IsNearest r w) : v = w := by
  rcases lt_trichotomy r 0 with hr | rfl | hr
  · exact neg_injective (hv.neg.unique_of_pos (neg_pos.mpr hr) hw.neg)
  · rw [zero_iff.mp hv, zero_iff.mp hw]
  · exact hv.unique_of_pos hr hw

/-- Rounding keeps the order of numbers. -/
protected theorem mono (hv : IsNearest r v) (hw : IsNearest s w) (hle : r ≤ s) : v ≤ w := by
  rcases hle.eq_or_lt with rfl | hlt
  · exact (hv.unique hw).le
  · by_contra hlt'
    rw [not_le] at hlt'
    have hr := hv.closest w hw.isDouble
    have hs := hw.closest v hv.isDouble
    rw [← sq_le_sq] at hr hs
    -- `r` stands above the middle of the two doubles, and `s` below it.
    have hmiddle : 0 ≤ (v - w) * (r - s) := by linarith
    exact absurd hmiddle (not_le.mpr (mul_neg_of_pos_of_neg (sub_pos.mpr hlt') (sub_neg.mpr hlt)))

end IsNearest

end CestWriter.Number
