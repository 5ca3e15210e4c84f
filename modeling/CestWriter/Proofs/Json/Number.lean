import CestWriter.Json.Render
import CestWriter.Proofs.Json.Numeral
import CestWriter.Proofs.Number.Numeral
import Mathlib.Tactic.SplitIfs

/-! # Numbers in JSON text

Every number is written as a numeral, and a whole number of 64 bits is read back as it was. -/

namespace CestWriter

open Json.Numeral (IsDigits Parts SpellsExponent SpellsFraction SpellsSign)
open Number (Double IsNatural Shortest isNatural_toDigits)

theorem Json.Numeral.Parts.spells {negative : Bool} {sign whole fraction exponent : List Char}
    {f : Option (List Char)} {e : Option Int} (hsign : SpellsSign negative sign)
    (hwhole : IsNatural whole) (hfraction : SpellsFraction f fraction)
    (hexponent : SpellsExponent e exponent) :
    Parts.Spells ⟨negative, whole, f, e⟩ (sign ++ (whole ++ (fraction ++ exponent))) :=
  .mk hsign hwhole hfraction hexponent

/-! ## Doubles -/

namespace Number.Shortest

/-- The numeral that the text of a decimal is. -/
def parts (negative : Bool) (s : Shortest) : Parts :=
  let ds := Nat.toDigits 10 s.digits
  let e : Int := s.exponent + ds.length - 1
  let zeros (n : Int) : List Char := List.replicate n.toNat '0'
  if 0 ≤ e ∧ e ≤ 15 then
    let places := (e + 1).toNat
    if ds.length ≤ places then ⟨negative, ds ++ zeros (e + 1 - ds.length), some ['0'], none⟩
    else ⟨negative, ds.take places, some (ds.drop places), none⟩
  else if -5 ≤ e ∧ e < 0 then ⟨negative, ['0'], some (zeros (-e - 1) ++ ds), none⟩
  else ⟨negative, ds.take 1, if ds.length = 1 then none else some (ds.drop 1), some e⟩

theorem isDigits_toDigits (n : Nat) : IsDigits (Nat.toDigits 10 n) :=
  ⟨(isNatural_toDigits n).ne_nil, (isNatural_toDigits n).isDigit⟩

section

variable {ds rest : List Char}

theorem isNatural_append (h : IsDigits ds) (hlead : ds.head? ≠ some '0')
    (hrest : ∀ c ∈ rest, c.isDigit = true) : IsNatural (ds ++ rest) := by
  refine ⟨by simp [h.ne_nil], List.forall_mem_append.mpr ⟨h.isDigit, hrest⟩, fun hzero => ?_⟩
  rw [List.head?_append_of_ne_nil _ h.ne_nil] at hzero
  exact absurd hzero hlead

theorem isNatural_take (h : IsDigits ds) (hlead : ds.head? ≠ some '0') {n : Nat} (hn : 0 < n) :
    IsNatural (ds.take n) := by
  refine ⟨?_, fun c hc => h.isDigit c (List.mem_of_mem_take hc), fun hzero => ?_⟩
  · simp [h.ne_nil, Nat.ne_of_gt hn]
  · rw [List.head?_take, if_neg (Nat.ne_of_gt hn)] at hzero
    exact absurd hzero hlead

theorem isDigits_drop (h : IsDigits ds) {n : Nat} (hn : n < ds.length) : IsDigits (ds.drop n) :=
  ⟨by simpa using hn, fun c hc => h.isDigit c (List.mem_of_mem_drop hc)⟩

end

theorem isDigit_zeros (n : Nat) : ∀ c ∈ List.replicate n '0', c.isDigit = true := by
  intro c hc
  obtain rfl := List.eq_of_mem_replicate hc
  rfl

theorem spellsExponent (e : Int) :
    SpellsExponent (some e) ('e' :: (if e < 0 then '-' else '+') :: Nat.toDigits 10 e.natAbs) := by
  have hds := isDigits_toDigits e.natAbs
  have hvalue : (ofDigits (Nat.toDigits 10 e.natAbs) : Int) = e.natAbs := by
    rw [ofDigits_toDigits]
  split
  · have he : e = -ofDigits (Nat.toDigits 10 e.natAbs) := by omega
    nth_rewrite 1 [he]
    exact .minus (.inl rfl) hds
  · have he : e = ofDigits (Nat.toDigits 10 e.natAbs) := by omega
    nth_rewrite 1 [he]
    exact .plus (.inl rfl) hds

theorem spells_text {s : Shortest} (hs : s.digits ≠ 0) {negative : Bool} {sign : List Char}
    (hsign : SpellsSign negative sign) : (s.parts negative).Spells (sign ++ s.text.toList) := by
  have hds := isDigits_toDigits s.digits
  have hlead := head?_toDigits hs
  have hpos := List.length_pos_iff.mpr hds.ne_nil
  have hzero : IsNatural ['0'] := isNatural_toDigits 0
  simp only [text, parts, String.toList_ofList]
  generalize Nat.toDigits 10 s.digits = ds at hds hlead hpos ⊢
  generalize s.exponent + (ds.length : Int) - 1 = e
  by_cases hplain : 0 ≤ e ∧ e ≤ 15
  · rw [if_pos hplain, if_pos hplain]
    by_cases hshort : ds.length ≤ (e + 1).toNat
    · rw [if_pos hshort, if_pos hshort, List.append_assoc]
      have hpoint : SpellsFraction (some ['0']) ['.', '0'] := .present ⟨by simp, by simp⟩
      have hwhole := isNatural_append hds hlead (isDigit_zeros (e + 1 - ds.length).toNat)
      simpa using Parts.spells hsign hwhole hpoint .absent
    · rw [if_neg hshort, if_neg hshort, List.append_assoc, List.singleton_append,
        ← List.append_nil ('.' :: _)]
      exact Parts.spells hsign (isNatural_take hds hlead (by omega))
        (.present (isDigits_drop hds (by omega))) .absent
  · rw [if_neg hplain, if_neg hplain]
    by_cases hsmall : -5 ≤ e ∧ e < 0
    · rw [if_pos hsmall, if_pos hsmall]
      have hfraction : IsDigits (List.replicate (-e - 1).toNat '0' ++ ds) :=
        ⟨by simp [hds.ne_nil], List.forall_mem_append.mpr ⟨isDigit_zeros _, hds.isDigit⟩⟩
      simpa using Parts.spells hsign hzero (.present hfraction) .absent
    · rw [if_neg hsmall, if_neg hsmall]
      have hwhole := isNatural_take hds hlead Nat.one_pos
      by_cases hone : ds.length = 1
      · simpa [hone] using Parts.spells hsign hwhole .absent (spellsExponent e)
      · have hfraction := SpellsFraction.present (isDigits_drop hds (n := 1) (by omega))
        simpa [hone] using Parts.spells hsign hwhole hfraction (spellsExponent e)

theorem ne_zero_of_onGrid? {x : Double} {k : Int} {d : Nat} (h : onGrid? x k = some d) : d ≠ 0 := by
  unfold onGrid? at h
  extract_lets m low p at h
  generalize overPowerOfTen m p k = middle at h
  obtain ⟨v, den⟩ := middle
  dsimp -zeta only at h
  extract_lets inside down best at h
  have hinside {n : Nat} (hn : inside n = true) : n ≠ 0 :=
    Nat.ne_of_gt (of_decide_eq_true (Bool.and_eq_true_iff.mp hn).1)
  split_ifs at h with hbest hdown hup
  · obtain rfl := Option.some.inj h
    exact hinside hbest
  · obtain rfl := Option.some.inj h
    exact hinside hdown
  · obtain rfl := Option.some.inj h
    exact hinside hup

/-- Zero stands for no double but zero. -/
theorem digits_of_ne_zero {x : Double} (hx : x.isZero = false) : (of x).digits ≠ 0 := by
  rw [of]
  cases h : List.findSome? _ _ with
  | some s =>
      obtain ⟨k, -, hk⟩ := List.exists_of_findSome?_eq_some h
      obtain ⟨d, hd, rfl⟩ := Option.map_eq_some_iff.mp hk
      exact ne_zero_of_onGrid? hd
  | none => simpa [Double.isZero] using hx

end Number.Shortest

namespace Json.Number

/-- The numeral that the text of a number is. -/
def parts : Json.Number → Parts
  | .whole n => ⟨decide (n < 0), Nat.toDigits 10 n.natAbs, none, none⟩
  | .real x => if x.isZero then ⟨x.negative, ['0'], some ['0'], none⟩
    else (Shortest.of x).parts x.negative

theorem spells_render (n : Json.Number) : n.parts.Spells n.render.toList := by
  cases n with
  | whole n =>
      have hnatural := isNatural_toDigits n.natAbs
      obtain ⟨m, rfl | rfl⟩ := Int.eq_nat_or_neg n
      · rw [render, CestWriter.Number.toList_toString_natCast, parts,
          decide_eq_false (Int.not_lt.mpr (Int.natCast_nonneg m)), ← List.append_nil (Nat.toDigits 10 m)]
        exact Parts.spells .plus hnatural .absent .absent
      · by_cases hm : m = 0
        · subst hm
          exact Parts.spells .plus hnatural .absent .absent
        · rw [render, CestWriter.Number.toList_toString_neg hm, parts,
            decide_eq_true (by omega : -(m : Int) < 0)]
          rw [Int.natAbs_neg, Int.natAbs_natCast] at hnatural ⊢
          simpa using Parts.spells .minus hnatural .absent .absent
  | real x =>
      obtain ⟨sign, hsign, htext⟩ : ∃ sign, SpellsSign x.negative sign ∧
          (if x.negative then "-" else "").toList = sign := by
        cases x.negative with
        | true => exact ⟨_, .minus, rfl⟩
        | false => exact ⟨_, .plus, rfl⟩
      rw [render, Double.text, String.toList_append, htext, parts]
      cases hx : x.isZero with
      | true =>
          rw [if_pos rfl, if_pos rfl]
          have hpoint : SpellsFraction (some ['0']) ['.', '0'] := .present ⟨by simp, by simp⟩
          exact Parts.spells hsign (isNatural_toDigits 0) hpoint .absent
      | false =>
          rw [if_neg Bool.false_ne_true, if_neg Bool.false_ne_true]
          exact Shortest.spells_text (Shortest.digits_of_ne_zero hx) hsign

end Json.Number

/-! ## Whole numbers -/

namespace Json.Numeral

open CestWriter.Number (digitValue limit64)

theorem le_foldl_digits (ds : List Char) (n : Nat) :
    n ≤ ds.foldl (fun n d => 10 * n + digitValue d) n := by
  induction ds generalizing n with
  | nil => exact Nat.le_refl n
  | cons d ds ih => exact Nat.le_trans (by omega) (ih (10 * n + digitValue d))

/-- Digits of a number of 64 bits are all taken. -/
theorem extend_eq {ds : List Char} {n : Nat}
    (h : ds.foldl (fun n d => 10 * n + digitValue d) n ≤ limit64) :
    extend n ds = (ds.foldl (fun n d => 10 * n + digitValue d) n, []) := by
  induction ds generalizing n with
  | nil => rfl
  | cons d ds ih =>
      have hd : ¬limit64 < 10 * n + digitValue d :=
        Nat.not_lt.mpr (Nat.le_trans (le_foldl_digits ds _) h)
      rw [extend, if_neg hd, ih h]
      rfl

end Json.Numeral

/-- A whole number that fits 64 bits is read back as it was written. -/
theorem Json.Number.number?_parts {n : Nat} (h : n ≤ CestWriter.Number.limit64) :
    (parts (.whole n)).number? = some (.whole n) := by
  have hvalue := CestWriter.Number.ofDigits_toDigits n
  unfold CestWriter.Number.ofDigits at hvalue
  have hextend : Numeral.extend 0 (Nat.toDigits 10 n) = (n, []) := by
    rw [Numeral.extend_eq (by rw [hvalue]; exact h), hvalue]
  have hsign : decide ((n : Int) < 0) = false := decide_eq_false (by omega)
  rw [parts, Parts.number?, Numeral.value?, Int.natAbs_natCast, hextend, hsign]
  rfl

end CestWriter
