import CestWriter.Proofs.Number.Numeral
import CestWriter.Proofs.Number.Reading

/-! # Integers that are read exactly

A numeral passes through a double on its way to an integer. Up to `2 ^ 53` nothing is lost. -/

namespace CestWriter.Number

/-! ## Numerals of integers -/

theorem isNumeral_digits {sign ds : List Char} {negative : Bool} (hs : Sign sign negative)
    (hds : IsNatural ds) : IsNumeral (sign ++ ds) (signed negative (ofDigits ds)) := by
  have hne : ds ++ [] ≠ [] := by simpa using hds.ne_nil
  have h := IsNumeral.mk hs hds.isDigit .none hne .none
  simpa [ofDigits] using h

theorem isNumeral_toString (n : Int) : IsNumeral (toString n).toList n := by
  obtain ⟨m, rfl | rfl⟩ := Int.eq_nat_or_neg n
  · have h := isNumeral_digits .none (isNatural_toDigits m)
    rw [ofDigits_toDigits] at h
    rw [toList_toString_natCast]
    exact_mod_cast h
  · by_cases hm : m = 0
    · subst hm
      have h := isNumeral_digits .none (isNatural_toDigits 0)
      rw [ofDigits_toDigits] at h
      exact_mod_cast h
    · have h := isNumeral_digits .minus (isNatural_toDigits m)
      rw [ofDigits_toDigits] at h
      rw [toList_toString_neg hm]
      exact_mod_cast h

/-! ## Integers that are doubles -/

theorem isDouble_intCast {z : ℤ} (hz : |z| ≤ 2 ^ 53) : IsDouble z := by
  have h : IsDouble (z * 2 ^ (0 : ℤ)) := .of_multiple (by norm_num) (by norm_num) hz
  rwa [zpow_zero, mul_one] at h

theorem isFinite_intCast {cs : List Char} {z : ℤ} (h : IsNumeral cs z) (hz : |z| ≤ 2 ^ 53) :
    IsFinite cs z := by
  refine ⟨z, h, .refl (isDouble_intCast hz), ?_⟩
  calc |(z : ℚ)| ≤ 2 ^ 53 := by exact_mod_cast hz
    _ < 2 ^ 1024 := pow_lt_pow_right₀ (by norm_num) (by norm_num)

theorem saturate64_eq {z : ℤ} (hz : |z| ≤ 2 ^ 53) : saturate64 z = z := by
  rw [Int.abs_eq_natAbs] at hz
  unfold saturate64
  omega

/-- The text of an integer of at most 53 bits is read as that integer. -/
theorem floor64?_toString {n : Int} (h : n.natAbs ≤ 2 ^ 53) : floor64? (toString n) = some n := by
  have habs : |n| ≤ 2 ^ 53 := by
    rw [Int.abs_eq_natAbs]
    exact_mod_cast h
  have hfinite := isFinite_intCast (isNumeral_toString n) habs
  rw [floor64?_eq_some_iff]
  exact ⟨n, hfinite, by rw [Int.floor_intCast, saturate64_eq habs]⟩

end CestWriter.Number
