import CestWriter.Emission.Compose
import CestWriter.Proofs.Number.Exact
import CestWriter.Proofs.Text.Blank

/-! # Recorded numbers

Durations, timeouts and frame numbers are recorded as decimal numerals, and written as integers. -/

namespace CestWriter.Emission

open Number

variable {what : String} {ifEmpty : ℤ} {raw : String} {v : ℚ}

/-! ## Trimmed text -/

theorem floor64?_trim_of_isFinite (hv : IsFinite (Text.trimChars raw.toList) v) :
    floor64? (Text.trim raw) = some (saturate64 ⌊v⌋) :=
  floor64?_eq_some_iff.mpr ⟨v, by rwa [Text.toList_trim], rfl⟩

theorem floor64?_trim_of_not_isFinite (h : ∀ v, ¬ IsFinite (Text.trimChars raw.toList) v) :
    floor64? (Text.trim raw) = none :=
  floor64?_eq_none_iff.mpr (by rwa [Text.toList_trim])

/-! ## Blank and other texts -/

theorem floored_of_empty (h : Text.trimChars raw.toList = []) :
    floored what ifEmpty raw = .ok ifEmpty := by
  rw [floored, if_pos (Text.isEmpty_trim_iff.mpr h)]

theorem floored_of_isFinite (hv : IsFinite (Text.trimChars raw.toList) v) :
    floored what ifEmpty raw = .ok (saturate64 ⌊v⌋) := by
  have hfull : ¬ (Text.trim raw).isEmpty = true := Text.isEmpty_trim_iff.not.mpr hv.ne_nil
  simp [floored, hfull, floor64?_trim_of_isFinite hv]

theorem floored_of_not_isFinite (h : Text.trimChars raw.toList ≠ [])
    (hnot : ∀ v, ¬ IsFinite (Text.trimChars raw.toList) v) :
    floored what ifEmpty raw = .error (.badArgument (.number what (Text.trim raw))) := by
  have hfull : ¬ (Text.trim raw).isEmpty = true := Text.isEmpty_trim_iff.not.mpr h
  simp [floored, hfull, floor64?_trim_of_not_isFinite hnot]

theorem floored_eq_ok_iff {n : ℤ} : floored what ifEmpty raw = .ok n ↔
    (Text.trimChars raw.toList = [] ∧ n = ifEmpty) ∨
      ∃ v, IsFinite (Text.trimChars raw.toList) v ∧ n = saturate64 ⌊v⌋ := by
  constructor
  · intro h
    by_cases hempty : Text.trimChars raw.toList = []
    · rw [floored_of_empty hempty] at h
      exact .inl ⟨hempty, (Except.ok.inj h).symm⟩
    · by_cases hfinite : ∃ v, IsFinite (Text.trimChars raw.toList) v
      · obtain ⟨v, hv⟩ := hfinite
        rw [floored_of_isFinite hv] at h
        exact .inr ⟨v, hv, (Except.ok.inj h).symm⟩
      · rw [floored_of_not_isFinite hempty (not_exists.mp hfinite)] at h
        cases h
  · rintro (⟨hempty, rfl⟩ | ⟨v, hv, rfl⟩)
    · exact floored_of_empty hempty
    · exact floored_of_isFinite hv

theorem floored_eq_ok_iff_of_isNumeral {r : ℚ} {n : ℤ}
    (hr : IsNumeral (Text.trimChars raw.toList) r) : floored what ifEmpty raw = .ok n ↔
      ∃ v, IsFinite (Text.trimChars raw.toList) v ∧ n = saturate64 ⌊v⌋ := by
  rw [floored_eq_ok_iff, or_iff_right]
  rintro ⟨hempty, -⟩
  exact hr.ne_nil hempty

/-! ## Words for numbers that are not finite -/

/-- A word that other readers take for a number which is infinite or none. -/
def IsWord (cs : List Char) : Prop :=
  ∃ sign word negative, cs = sign ++ word ∧ Sign sign negative ∧
    String.ofList (word.map Char.toLower) ∈ ["inf", "infinity", "nan"]

theorem toLower_of_isDigit {c : Char} (h : c.isDigit = true) : c.toLower = c := by
  have h9 : '9'.val.toNat = 57 := rfl
  have hA : 'A'.val.toNat = 65 := rfl
  unfold Char.isDigit at h
  unfold Char.toLower
  simp only [Bool.and_eq_true, decide_eq_true_eq, UInt32.le_iff_toNat_le, ge_iff_le] at h ⊢
  rw [dif_neg (by omega)]

theorem IsWord.not_isDigit {cs : List Char} (h : IsWord cs) : ∀ c ∈ cs, c.isDigit = false := by
  obtain ⟨sign, word, negative, rfl, hsign, hword⟩ := h
  intro c hc
  rcases List.mem_append.mp hc with hc | hc
  · cases hsign <;> simp_all
  · have hlower : c.toLower.isDigit = false := by
      have hmem : c.toLower ∈ (String.ofList (word.map Char.toLower)).toList := by
        rw [String.toList_ofList]
        exact List.mem_map_of_mem hc
      generalize String.ofList _ = name at hword hmem
      have hall : ∀ name ∈ ["inf", "infinity", "nan"], ∀ c ∈ name.toList, c.isDigit = false := by
        simp [Char.isDigit]
      exact hall name hword _ hmem
    rw [← Bool.not_eq_true]
    intro hdigit
    rw [toLower_of_isDigit hdigit, hdigit] at hlower
    cases hlower

theorem IsWord.ne_nil {cs : List Char} (h : IsWord cs) : cs ≠ [] := by
  obtain ⟨sign, word, -, rfl, -, hword⟩ := h
  rintro hnil
  obtain rfl := (List.append_eq_nil_iff.mp hnil).2
  exact absurd hword (by decide)

theorem IsWord.not_isFinite {cs : List Char} (h : IsWord cs) (v : ℚ) : ¬ IsFinite cs v := by
  rintro ⟨r, hr, -⟩
  obtain ⟨c, hc, hdigit⟩ := hr.exists_digit
  exact Bool.false_ne_true ((h.not_isDigit c hc).symm.trans hdigit)

/-! ## Recorded numbers as integers -/

def InRange (n : ℤ) : Prop :=
  -2 ^ 63 ≤ n ∧ n ≤ 2 ^ 63 - 1

theorem inRange_saturate64 (n : ℤ) : InRange (saturate64 n) := by
  unfold InRange saturate64
  omega

/-- What a recorded number is written as: `ifEmpty` for blank text, and otherwise the floor of the
double nearest to the numeral, brought into the signed 64-bit range. -/
structure FlooredSpec (what : String) (ifEmpty : ℤ) (raw : String) : Prop where
  empty : (∀ d, floored what d raw = .ok d) ↔ Text.trimChars raw.toList = []
  accepted : ∀ n, Text.trimChars raw.toList ≠ [] → (floored what ifEmpty raw = .ok n ↔
    ∃ r v, IsNumeral (Text.trimChars raw.toList) r ∧ IsNearest r v ∧ |v| < 2 ^ 1024 ∧
      n = max (-2 ^ 63) (min ⌊v⌋ (2 ^ 63 - 1)))
  refused : Text.trimChars raw.toList ≠ [] →
    (∀ r v, IsNumeral (Text.trimChars raw.toList) r → IsNearest r v → 2 ^ 1024 ≤ |v|) →
    floored what ifEmpty raw = .error (.badArgument (.number what (Text.trim raw)))
  word : IsWord (Text.trimChars raw.toList) →
    floored what ifEmpty raw = .error (.badArgument (.number what (Text.trim raw)))
  exact : ∀ z : ℤ, IsNumeral (Text.trimChars raw.toList) z → |z| ≤ 2 ^ 53 →
    floored what ifEmpty raw = .ok z
  mono : ∀ (other : String) (r s : ℚ) (m n : ℤ), IsNumeral (Text.trimChars raw.toList) r →
    IsNumeral (Text.trimChars other.toList) s → r ≤ s → floored what ifEmpty raw = .ok m →
    floored what ifEmpty other = .ok n → m ≤ n
  range : InRange ifEmpty → ∀ n, floored what ifEmpty raw = .ok n → InRange n
  high : ∀ r, IsNumeral (Text.trimChars raw.toList) r → 2 ^ 63 ≤ r →
    ∀ n, floored what ifEmpty raw = .ok n → n = 2 ^ 63 - 1
  low : ∀ r, IsNumeral (Text.trimChars raw.toList) r → r ≤ -2 ^ 63 →
    ∀ n, floored what ifEmpty raw = .ok n → n = -2 ^ 63

theorem floored_spec (what : String) (ifEmpty : ℤ) (raw : String) :
    FlooredSpec what ifEmpty raw where
  empty := by
    constructor
    · intro h
      rcases floored_eq_ok_iff.mp (h 0) with ⟨hempty, -⟩ | ⟨v, hv, h0⟩
      · exact hempty
      · have h1 := h 1
        rw [floored_of_isFinite hv] at h1
        exact absurd (h0.trans (Except.ok.inj h1)) (by decide)
    · intro h d
      exact floored_of_empty h
  accepted n h := by
    rw [floored_eq_ok_iff, or_iff_right fun hempty => h hempty.1]
    constructor
    · rintro ⟨v, ⟨r, hr, hv, hlt⟩, rfl⟩
      exact ⟨r, v, hr, hv, hlt, saturate64_eq_max_min _⟩
    · rintro ⟨r, v, hr, hv, hlt, rfl⟩
      exact ⟨v, ⟨r, hr, hv, hlt⟩, (saturate64_eq_max_min _).symm⟩
  refused h hnot := by
    refine floored_of_not_isFinite h ?_
    rintro v ⟨r, hr, hv, hlt⟩
    exact absurd (hnot r v hr hv) (not_le.mpr hlt)
  word h := floored_of_not_isFinite h.ne_nil h.not_isFinite
  exact z hz hle := by
    rw [floored_of_isFinite (isFinite_intCast hz hle), Int.floor_intCast, saturate64_eq hle]
  mono other r s m n hr hs hle hm hn := by
    obtain ⟨v, hv, rfl⟩ := (floored_eq_ok_iff_of_isNumeral hr).mp hm
    obtain ⟨w, hw, rfl⟩ := (floored_eq_ok_iff_of_isNumeral hs).mp hn
    exact saturate64_mono (Int.floor_le_floor (hv.mono hw hr hs hle))
  range hdefault n hn := by
    rcases floored_eq_ok_iff.mp hn with ⟨-, rfl⟩ | ⟨v, -, rfl⟩
    · exact hdefault
    · exact inRange_saturate64 _
  high r hr hle n hn := by
    obtain ⟨v, hv, rfl⟩ := (floored_eq_ok_iff_of_isNumeral hr).mp hn
    have hend : IsDouble (2 ^ (63 : ℤ)) := .pow (by norm_num) (by norm_num)
    have hv' : (2 : ℚ) ^ 63 ≤ v := (hv.isNearest hr).le_of_le hend hle
    have hfloor : (2 : ℤ) ^ 63 ≤ ⌊v⌋ := Int.le_floor.mpr (by exact_mod_cast hv')
    unfold saturate64
    omega
  low r hr hle n hn := by
    obtain ⟨v, hv, rfl⟩ := (floored_eq_ok_iff_of_isNumeral hr).mp hn
    have hend : IsDouble (-2 ^ (63 : ℤ)) := .neg (.pow (by norm_num) (by norm_num))
    have hv' : v ≤ -2 ^ 63 := (hv.isNearest hr).ge_of_ge hend hle
    have hfloor : ⌊v⌋ ≤ -2 ^ 63 := by exact_mod_cast (Int.floor_le v).trans hv'
    unfold saturate64
    omega

-- The nearest double can be on the other side of an integer.
example : floored "timeout" 0 "0.99999999999999999" = .ok 1 := by
  rfl

end CestWriter.Emission
