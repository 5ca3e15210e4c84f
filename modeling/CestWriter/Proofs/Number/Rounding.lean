import CestWriter.Number.Decimal
import CestWriter.Proofs.Number.Nearest
import Mathlib.Data.Nat.Log
import Mathlib.Tactic.FieldSimp

/-! # Rounding by whole numbers

Doubles and decimals are worked out as pairs of whole numbers. The number that a decimal stands for
is rounded to its nearest double, or to nothing if that is beyond the largest double. -/

namespace CestWriter.Number

/-! ## Fractions -/

theorem zpow_of_nonneg (b : ℚ) {e : ℤ} (he : 0 ≤ e) : b ^ e = b ^ e.toNat := by
  rw [← zpow_natCast, Int.toNat_of_nonneg he]

theorem zpow_of_neg (b : ℚ) {e : ℤ} (he : e < 0) : b ^ e = (b ^ (-e).toNat)⁻¹ := by
  rw [← zpow_natCast, Int.toNat_of_nonneg (by omega), zpow_neg, inv_inv]

/-- A whole number times a power, as a fraction of whole numbers. -/
theorem scaled_value {b : ℕ} (hb : 0 < b) (n : ℕ) (e : ℤ) :
    let x := if 0 ≤ e then (n * Nat.pow b e.toNat, 1) else (n, Nat.pow b (-e).toNat)
    0 < x.2 ∧ (x.1 / x.2 : ℚ) = n * b ^ e := by
  intro x
  by_cases he : 0 ≤ e
  · have hx : x = (n * b ^ e.toNat, 1) := if_pos he
    rw [hx, zpow_of_nonneg b he]
    refine ⟨Nat.one_pos, ?_⟩
    push_cast
    exact div_one _
  · have hx : x = (n, b ^ (-e).toNat) := if_neg he
    rw [hx, zpow_of_neg b (not_le.mp he)]
    refine ⟨Nat.pow_pos hb, ?_⟩
    push_cast
    exact div_eq_mul_inv _ _

section

variable {num den : ℕ}

/-- `num / den` to the nearest whole number. -/
theorem isRounded_roundEven (hden : 0 < den) : IsRounded (num / den : ℚ) (roundEven num den) := by
  have hden' : (0 : ℚ) < den := by exact_mod_cast hden
  have hsplit : (num : ℚ) = den * (num / den : ℕ) + (num % den : ℕ) := by
    exact_mod_cast (Nat.div_add_mod num den).symm
  have hdown : (num / den : ℚ) - ((num / den : ℕ) : ℤ) = (num % den : ℕ) / den := by
    rw [Int.cast_natCast, div_sub' hden'.ne', hsplit, add_sub_cancel_left]
  have hup : (num / den : ℚ) - ((num / den + 1 : ℕ) : ℤ) = (num % den : ℕ) / den - 1 := by
    rw [← hdown]
    push_cast
    ring
  have hnonneg : (0 : ℚ) ≤ (num % den : ℕ) / den := by positivity
  have hlt : ((num % den : ℕ) : ℚ) / den < 1 := by
    rw [div_lt_one hden']
    exact_mod_cast Nat.mod_lt num hden
  unfold roundEven
  dsimp only
  split_ifs with hbelow habove heven
  · have hhalf : ((num % den : ℕ) : ℚ) / den < 1 / 2 := by
      rw [div_lt_div_iff₀ hden' (by norm_num), one_mul, mul_comm]
      exact_mod_cast hbelow
    refine .of_lt ?_
    rwa [hdown, abs_of_nonneg hnonneg]
  · have hhalf : 1 / 2 < ((num % den : ℕ) : ℚ) / den := by
      rw [div_lt_div_iff₀ (by norm_num) hden', one_mul, mul_comm]
      exact_mod_cast habove
    refine .of_lt ?_
    rw [hup, abs_of_neg (by linarith)]
    linarith
  all_goals
    have htie : ((num % den : ℕ) : ℚ) / den = 1 / 2 := by
      rw [div_eq_div_iff hden'.ne' (by norm_num), one_mul, mul_comm]
      exact_mod_cast le_antisymm (not_lt.mp habove) (not_lt.mp hbelow)
  · refine ⟨?_, fun _ => mod_cast Nat.even_iff.mpr heven⟩
    rw [hdown, htie, abs_of_pos (by norm_num)]
  · refine ⟨?_, fun _ => mod_cast (Nat.odd_iff.mpr (by omega)).add_one⟩
    rw [hup, htie]
    norm_num [abs_of_neg]

theorem descale_pos (num : ℕ) (hden : 0 < den) (e : ℤ) : 0 < (descale num den e).2 := by
  unfold descale
  split
  · exact Nat.mul_pos hden (Nat.pow_pos (by decide))
  · exact hden

/-- Descaling divides by a power of two. -/
theorem descale_value (num den : ℕ) (e : ℤ) :
    ((descale num den e).1 / (descale num den e).2 : ℚ) = num / den / 2 ^ e := by
  unfold descale
  split
  · next he =>
      rw [zpow_of_nonneg 2 he, div_div]
      push_cast [Nat.pow_eq]
      rfl
  · next he =>
      rw [zpow_of_neg 2 (not_le.mp he), div_inv_eq_mul, div_mul_eq_mul_div]
      push_cast [Nat.pow_eq]
      rfl

theorem isRounded_descale (num : ℕ) (hden : 0 < den) (e : ℤ) :
    IsRounded (num / den / 2 ^ e : ℚ) (roundEven (descale num den e).1 (descale num den e).2) := by
  rw [← descale_value]
  exact isRounded_roundEven (descale_pos num hden e)

theorem log_eq {r : ℚ} {e : ℤ} (hlow : 2 ^ e ≤ r) (hhigh : r < 2 ^ (e + 1)) : Int.log 2 r = e := by
  have hr : 0 < r := lt_of_lt_of_le (by positivity) hlow
  refine le_antisymm ?_ ?_
  · have := (Int.lt_zpow_iff_log_lt (b := 2) (by norm_num) hr).mp (by exact_mod_cast hhigh)
    omega
  · exact (Int.zpow_le_iff_le_log (b := 2) (by norm_num) hr).mp (by exact_mod_cast hlow)

theorem le_descale_iff (hden : 0 < den) (e : ℤ) :
    (descale num den e).2 ≤ (descale num den e).1 ↔ 2 ^ e ≤ (num / den : ℚ) := by
  have hpos : (0 : ℚ) < (descale num den e).2 := by exact_mod_cast descale_pos num hden e
  rw [← Nat.cast_le (α := ℚ), ← one_le_div₀ hpos, descale_value, one_le_div₀ (by positivity)]

/-- The quotient of two numbers is within a factor of two of the quotient of their powers of two. -/
theorem div_bounds (hnum : 0 < num) (hden : 0 < den) :
    2 ^ ((num.log2 : ℤ) - den.log2 - 1) ≤ (num / den : ℚ) ∧
      (num / den : ℚ) < 2 ^ ((num.log2 : ℤ) - den.log2 + 1) := by
  have hden' : (0 : ℚ) < den := by exact_mod_cast hden
  have hlow {n : ℕ} (hn : 0 < n) : (2 : ℚ) ^ (n.log2 : ℤ) ≤ n := by
    exact_mod_cast Nat.log2_self_le hn.ne'
  have hhigh (n : ℕ) : (n : ℚ) < 2 ^ ((n.log2 : ℤ) + 1) := by
    exact_mod_cast Nat.lt_log2_self (n := n)
  constructor
  · rw [le_div_iff₀ hden']
    calc (2 : ℚ) ^ ((num.log2 : ℤ) - den.log2 - 1) * den
        ≤ 2 ^ ((num.log2 : ℤ) - den.log2 - 1) * 2 ^ ((den.log2 : ℤ) + 1) := by
          gcongr
          exact (hhigh den).le
      _ = 2 ^ (num.log2 : ℤ) := by rw [← zpow_add₀ (by norm_num)]; congr 1; ring
      _ ≤ num := hlow hnum
  · rw [div_lt_iff₀ hden']
    calc (num : ℚ) < 2 ^ ((num.log2 : ℤ) + 1) := hhigh num
      _ = 2 ^ ((num.log2 : ℤ) - den.log2 + 1) * 2 ^ (den.log2 : ℤ) := by
          rw [← zpow_add₀ (by norm_num)]; congr 1; ring
      _ ≤ 2 ^ ((num.log2 : ℤ) - den.log2 + 1) * den := by
          gcongr
          exact hlow hden

theorem binade_eq (hnum : 0 < num) (hden : 0 < den) : binade num den = Int.log 2 (num / den : ℚ) := by
  obtain ⟨hlow, hhigh⟩ := div_bounds hnum hden
  simp only [binade, le_descale_iff hden]
  split
  · next hle => exact (log_eq hle hhigh).symm
  · next hlt =>
      refine (log_eq hlow ?_).symm
      rwa [sub_add_cancel, ← not_le]

theorem unitExponent_eq (hnum : 0 < num) (hden : 0 < den) :
    unitExponent num den = spacing (num / den) := by
  rw [unitExponent, binade_eq hnum hden, spacing]

end

/-! ## Values -/

/-- A magnitude with its sign. -/
def signed (negative : Bool) (r : ℚ) : ℚ :=
  if negative then -r else r

theorem abs_signed (negative : Bool) {r : ℚ} (hr : 0 ≤ r) : |signed negative r| = r := by
  cases negative
  · exact abs_of_nonneg hr
  · exact (abs_neg r).trans (abs_of_nonneg hr)

theorem signed_zero (negative : Bool) : signed negative 0 = 0 := by
  cases negative <;> simp [signed]

theorem IsNearest.signed {r v : ℚ} (h : IsNearest r v) (negative : Bool) :
    IsNearest (signed negative r) (signed negative v) := by
  cases negative
  · exact h
  · exact h.neg

/-- The number that a double is. -/
def Double.value (x : Double) : ℚ :=
  signed x.negative (x.mantissa * 2 ^ x.exponent)

/-- The number that a decimal stands for. -/
def Decimal.value (x : Decimal) : ℚ :=
  signed x.negative (x.digits * 10 ^ x.exponent)

/-- What a number is rounded to: its nearest double, or nothing beyond the largest double. -/
inductive Rounds (r : ℚ) : Option Double → Prop
  | finite {x : Double} : IsNearest r x.value → |x.value| < 2 ^ 1024 → Rounds r (some x)
  | overflow {v : ℚ} : IsNearest r v → 2 ^ 1024 ≤ |v| → Rounds r none

/-! ## Rounding a fraction -/

namespace Double

@[simp]
theorem value_zero (negative : Bool) : (zero negative).value = 0 := by
  simp [value, zero, signed_zero]

theorem rounds_zero (negative : Bool) : Rounds 0 (some (zero negative)) := by
  refine .finite ?_ ?_
  · rw [value_zero]
    exact .refl .zero
  · rw [value_zero]
    norm_num

/-- A double is written with as many bits as there are above the smallest positive one. -/
structure IsNormal (x : Double) : Prop where
  lt : x.mantissa < 2 ^ 53
  full : x.exponent = -1074 ∨ 2 ^ 52 ≤ x.mantissa

/-- The largest exponent is that of the largest finite double. -/
theorem IsNormal.exponent_le_iff {x : Double} (h : IsNormal x) :
    x.exponent ≤ 971 ↔ |x.value| < 2 ^ 1024 := by
  rw [value, abs_signed _ (by positivity)]
  constructor
  · intro he
    have hm : (x.mantissa : ℚ) < 2 ^ 53 := by exact_mod_cast h.lt
    calc (x.mantissa : ℚ) * 2 ^ x.exponent < 2 ^ 53 * 2 ^ x.exponent := by gcongr
      _ ≤ 2 ^ 53 * 2 ^ (971 : ℤ) := by
          gcongr
          norm_num
      _ = 2 ^ 1024 := by rw [← zpow_natCast, ← zpow_natCast, ← zpow_add₀ (by norm_num)]; rfl
  · contrapose!
    intro he
    have hm : (2 : ℚ) ^ 52 ≤ x.mantissa := by exact_mod_cast h.full.resolve_left (by omega)
    calc (2 : ℚ) ^ 1024 = 2 ^ 52 * 2 ^ (972 : ℤ) := by
          rw [← zpow_natCast, ← zpow_natCast, ← zpow_add₀ (by norm_num)]
          rfl
      _ ≤ 2 ^ 52 * 2 ^ x.exponent := by
          gcongr
          · norm_num
          · omega
      _ ≤ x.mantissa * 2 ^ x.exponent := by gcongr

theorem rounds_of_isNormal {r : ℚ} {x : Double} (hx : IsNormal x) (h : IsNearest r x.value) :
    Rounds r (if x.exponent ≤ 971 then some x else none) := by
  split
  · next he => exact .finite h (hx.exponent_le_iff.mp he)
  · next he => exact .overflow h (not_lt.mp (hx.exponent_le_iff.not.mp he))

theorem rounds_nearest? {num den : ℕ} (negative : Bool) (hden : 0 < den) :
    Rounds (signed negative (num / den)) (nearest? negative num den) := by
  unfold nearest?
  split
  · next hnum =>
      rw [hnum, Nat.cast_zero, zero_div, signed_zero]
      exact rounds_zero negative
  · next hnum =>
      have hr : (0 : ℚ) < num / den := by positivity
      have hm := isRounded_descale num hden (spacing (num / den))
      rw [unitExponent_eq (Nat.pos_of_ne_zero hnum) hden]
      dsimp only
      generalize roundEven _ _ = m at hm ⊢
      have hhigh : m ≤ 2 ^ 53 := by
        exact_mod_cast (le_abs_self _).trans (abs_le_of_isRounded hr hm)
      have hfull : spacing (num / den) = -1074 ∨ 2 ^ 52 ≤ m := by
        exact_mod_cast le_of_isRounded hr hm
      have hnearest := (isNearest_of_isRounded hr hm).signed negative
      split
      · next htop =>
          -- The carry moves into the exponent.
          have hcarry : (Nat.pow 2 52 : ℕ) * (2 : ℚ) ^ (spacing (num / den) + 1) =
              (m : ℤ) * 2 ^ spacing (num / den : ℚ) := by
            rw [htop, zpow_add₀ (by norm_num)]
            norm_num
            ring
          refine rounds_of_isNormal ⟨by norm_num, .inr (by norm_num)⟩ ?_
          rw [value, hcarry]
          exact hnearest
      · next htop =>
          exact rounds_of_isNormal ⟨lt_of_le_of_ne hhigh htop, hfull⟩ (by exact_mod_cast hnearest)

theorem fraction_value (x : Double) :
    (x.fraction.1 / x.fraction.2 : ℚ) = x.mantissa * 2 ^ x.exponent :=
  (scaled_value (by decide) x.mantissa x.exponent).2

theorem floor_eq (x : Double) : x.floor = ⌊x.value⌋ := by
  have hvalue : x.value =
      ((if x.negative then -(x.fraction.1 : ℤ) else x.fraction.1 : ℤ) : ℚ) / x.fraction.2 := by
    rw [value, ← fraction_value, signed]
    split
    · push_cast
      exact (neg_div _ _).symm
    · push_cast
      rfl
  rw [floor, Int.fdiv_eq_ediv_of_nonneg _ (Int.natCast_nonneg _), hvalue,
    Rat.floor_intCast_div_natCast]

end Double

/-! ## Rounding a decimal -/

namespace Decimal

theorem fraction_spec (x : Decimal) :
    0 < x.fraction.2 ∧ (x.fraction.1 / x.fraction.2 : ℚ) = x.digits * 10 ^ x.exponent :=
  scaled_value (by decide) x.digits x.exponent

theorem abs_value (x : Decimal) : |x.value| = x.digits * 10 ^ x.exponent :=
  abs_signed _ (by positivity)

/-- A power of ten with an exponent above 400 is beyond every double. -/
theorem rounds_of_large {x : Decimal} (hd : x.digits ≠ 0) (he : 400 < x.exponent) :
    Rounds x.value none := by
  have hlarge : (2 : ℚ) ^ (1024 : ℤ) ≤ |x.value| := by
    have hd' : (1 : ℚ) ≤ x.digits := by exact_mod_cast Nat.pos_of_ne_zero hd
    calc (2 : ℚ) ^ (1024 : ℤ) ≤ (2 ^ 3) ^ (400 : ℤ) := by
          rw [← zpow_natCast 2 3, ← zpow_mul]
          exact zpow_le_zpow_right₀ (by norm_num) (by norm_num)
      _ ≤ 10 ^ (400 : ℤ) := zpow_le_zpow_left₀ (by norm_num) (by norm_num) (by norm_num)
      _ ≤ 10 ^ x.exponent := zpow_le_zpow_right₀ (by norm_num) he.le
      _ ≤ x.digits * 10 ^ x.exponent := le_mul_of_one_le_left (by positivity) hd'
      _ = |x.value| := (abs_value x).symm
  have hbound : IsDouble (2 ^ (1024 : ℤ)) := .pow (by norm_num) (by norm_num)
  obtain ⟨v, hv⟩ := IsNearest.exists_nearest x.value
  refine .overflow hv ?_
  rw [← zpow_natCast]
  rcases le_abs.mp hlarge with h | h
  · exact (hv.le_of_le hbound h).trans (le_abs_self v)
  · exact (hv.neg.le_of_le hbound h).trans (neg_le_abs v)

/-- A number that is that much below the smallest positive double rounds to zero. -/
theorem rounds_of_small {x : Decimal} (hd : x.digits ≠ 0)
    (he : x.digits.log2 + 1101 + 3 * x.exponent < 0) :
    Rounds x.value (some (Double.zero x.negative)) := by
  have hr : (0 : ℚ) < x.digits * 10 ^ x.exponent := by positivity
  have hsmall : (x.digits : ℚ) * 10 ^ x.exponent < 2 ^ (-1075 : ℤ) := by
    have hd' : (x.digits : ℚ) < 2 ^ ((x.digits.log2 : ℤ) + 1) := by
      exact_mod_cast Nat.lt_log2_self (n := x.digits)
    have hten : (10 : ℚ) ^ x.exponent ≤ 2 ^ (3 * x.exponent) := by
      rw [zpow_mul, ← inv_le_inv₀ (by positivity) (by positivity), ← zpow_neg, ← zpow_neg]
      exact zpow_le_zpow_left₀ (by omega) (by norm_num) (by norm_num)
    calc (x.digits : ℚ) * 10 ^ x.exponent
        < 2 ^ ((x.digits.log2 : ℤ) + 1) * 10 ^ x.exponent := by gcongr
      _ ≤ 2 ^ ((x.digits.log2 : ℤ) + 1) * 2 ^ (3 * x.exponent) := by gcongr
      _ = 2 ^ ((x.digits.log2 : ℤ) + 1 + 3 * x.exponent) :=
          (zpow_add₀ (by norm_num) _ _).symm
      _ ≤ 2 ^ (-1075 : ℤ) := zpow_le_zpow_right₀ (by norm_num) (by omega)
  have hrounded : IsRounded (x.digits * 10 ^ x.exponent / 2 ^ spacing (x.digits * 10 ^ x.exponent)) 0 := by
    refine .of_lt ?_
    rw [Int.cast_zero, sub_zero, abs_of_pos (by positivity), div_lt_iff₀ (by positivity)]
    calc (x.digits : ℚ) * 10 ^ x.exponent < 2 ^ (-1075 : ℤ) := hsmall
      _ = 1 / 2 * 2 ^ (-1074 : ℤ) := by
          rw [one_div, ← zpow_neg_one, ← zpow_add₀ (by norm_num)]
          rfl
      _ ≤ 1 / 2 * 2 ^ spacing (x.digits * 10 ^ x.exponent) := by
          gcongr
          · norm_num
          · exact le_spacing _
  have hnearest := (isNearest_of_isRounded hr hrounded).signed x.negative
  refine .finite ?_ ?_
  · simpa [value, signed_zero] using hnearest
  · rw [Double.value_zero]
    norm_num

theorem rounds_nearest? (x : Decimal) : Rounds x.value x.nearest? := by
  unfold nearest?
  split
  · next hd =>
      rw [value, hd, Nat.cast_zero, zero_mul, signed_zero]
      exact Double.rounds_zero x.negative
  split
  · next hd he => exact rounds_of_large hd he
  split
  · next hd _ he => exact rounds_of_small hd he
  · obtain ⟨hpos, hvalue⟩ := x.fraction_spec
    rw [value, ← hvalue]
    exact Double.rounds_nearest? x.negative hpos

end Decimal

end CestWriter.Number
