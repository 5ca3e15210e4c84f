import CestWriter.Proofs.Number.Rounding
import CestWriter.Proofs.Text.Name
import Mathlib.Data.List.TakeWhile

/-! # Reading decimal numerals

A numeral is an optional sign, digits with an optional point among or around them, and an optional
exponent. Reading one gives the floor of the double nearest to the number that it writes. -/

namespace CestWriter.Number

/-! ## Numerals -/

def IsDigits (ds : List Char) : Prop :=
  ∀ c ∈ ds, c.isDigit = true

/-- An optional sign; true stands for minus. -/
inductive Sign : List Char → Bool → Prop
  | none : Sign [] false
  | plus : Sign ['+'] false
  | minus : Sign ['-'] true

/-- A point and the digits after it, or no point. -/
inductive Point : List Char → List Char → Prop
  | none : Point [] []
  | some {ds : List Char} : IsDigits ds → Point ('.' :: ds) ds

/-- An optional exponent. -/
inductive Exponent : List Char → ℤ → Prop
  | none : Exponent [] 0
  | some {mark : Char} {sign ds : List Char} {negative : Bool} :
    mark = 'e' ∨ mark = 'E' → Sign sign negative → ds ≠ [] → IsDigits ds →
    Exponent (mark :: (sign ++ ds)) (if negative then -(ofDigits ds : ℤ) else ofDigits ds)

/-- A decimal numeral and the number that it writes. -/
inductive IsNumeral : List Char → ℚ → Prop
  | mk {sign whole point fraction exponent : List Char} {negative : Bool} {e : ℤ} :
    Sign sign negative → IsDigits whole → Point point fraction → whole ++ fraction ≠ [] →
    Exponent exponent e →
    IsNumeral (sign ++ (whole ++ (point ++ exponent)))
      (signed negative ((ofDigits whole + ofDigits fraction / 10 ^ fraction.length) * 10 ^ e))

theorem ofDigits_append (xs ys : List Char) :
    ofDigits (xs ++ ys) = ofDigits xs * 10 ^ ys.length + ofDigits ys := by
  induction ys using List.reverseRecOn with
  | nil => simp [ofDigits]
  | append_singleton ys y ih =>
      have hstep (ds : List Char) : ofDigits (ds ++ [y]) = 10 * ofDigits ds + digitValue y := by
        simp [ofDigits]
      rw [← List.append_assoc, hstep, hstep, ih, List.length_append, List.length_singleton, pow_succ]
      ring

/-! ## Taking a numeral apart -/

section

variable {cs sign body rest whole point fraction exponent : List Char} {negative : Bool} {e : ℤ}

theorem exists_sign (h : takeSign cs = (negative, body)) :
    ∃ sign, cs = sign ++ body ∧ Sign sign negative := by
  unfold takeSign at h
  split at h <;> obtain ⟨rfl, rfl⟩ := Prod.mk.inj h
  · exact ⟨['-'], rfl, .minus⟩
  · exact ⟨['+'], rfl, .plus⟩
  · exact ⟨[], rfl, .none⟩

theorem Sign.take (h : Sign sign negative) (hbody : ∀ c ∈ body.head?, c ≠ '-' ∧ c ≠ '+') :
    takeSign (sign ++ body) = (negative, body) := by
  cases h with
  | plus => rfl
  | minus => rfl
  | none =>
      unfold takeSign
      split
      · next heq => exact absurd rfl (hbody '-' (by rw [← List.nil_append body, heq]; rfl)).1
      · next heq => exact absurd rfl (hbody '+' (by rw [← List.nil_append body, heq]; rfl)).2
      · rfl

theorem IsDigits.not_sign {ds : List Char} (h : IsDigits ds) :
    ∀ c ∈ ds.head?, c ≠ '-' ∧ c ≠ '+' := by
  intro c hc
  have hdigit := h c (List.mem_of_mem_head? hc)
  constructor <;> rintro rfl <;> exact absurd hdigit (by decide)

theorem isDigits_takeWhile (cs : List Char) : IsDigits (cs.takeWhile Char.isDigit) :=
  fun _ hc => List.mem_takeWhile_imp hc

theorem exponentPart?_eq_some_iff : exponentPart? cs = some e ↔ Exponent cs e := by
  constructor
  · intro h
    unfold exponentPart? at h
    split at h
    · obtain rfl := Option.some.inj h
      exact .none
    · next c cs =>
        rcases hs : takeSign cs with ⟨negative, ds⟩
        rw [hs] at h
        obtain ⟨sign, rfl, hsign⟩ := exists_sign hs
        obtain ⟨⟨hmark, hne, hall⟩, he⟩ := Option.ite_none_right_eq_some.mp h
        obtain rfl := Option.some.inj he
        exact .some hmark hsign hne (List.all_eq_true.mp hall)
  · intro h
    cases h with
    | none => rfl
    | some hmark hsign hne hdigits =>
        simp only [exponentPart?, hsign.take hdigits.not_sign]
        exact if_pos ⟨hmark, hne, List.all_eq_true.mpr hdigits⟩

namespace Decimal

theorem exists_point (h : takeMantissa cs = (whole, fraction, rest)) :
    ∃ point, cs = whole ++ (point ++ rest) ∧ IsDigits whole ∧ Point point fraction := by
  have hsplit : cs = cs.takeWhile Char.isDigit ++ cs.dropWhile Char.isDigit :=
    List.takeWhile_append_dropWhile.symm
  unfold takeMantissa at h
  split at h <;> obtain ⟨rfl, hright⟩ := Prod.mk.inj h <;> obtain ⟨rfl, rfl⟩ := Prod.mk.inj hright
  · next tail htail =>
      refine ⟨'.' :: tail.takeWhile Char.isDigit, ?_, isDigits_takeWhile cs,
        .some (isDigits_takeWhile tail)⟩
      rw [List.cons_append, List.takeWhile_append_dropWhile, ← htail]
      exact hsplit
  · exact ⟨[], hsplit, isDigits_takeWhile cs, .none⟩

theorem takeMantissa_append (hwhole : IsDigits whole) (hpoint : Point point fraction)
    (hrest : ∀ c ∈ rest.head?, c.isDigit = false ∧ c ≠ '.') :
    takeMantissa (whole ++ (point ++ rest)) = (whole, fraction, rest) := by
  have hstop : ∀ c ∈ (point ++ rest).head?, c.isDigit = false := by
    cases hpoint with
    | none => exact fun c hc => (hrest c hc).1
    | some => simp
  rw [takeMantissa, Text.takeWhile_run hwhole hstop, Text.dropWhile_run hwhole hstop]
  have hdigit : ∀ c ∈ rest.head?, c.isDigit = false := fun c hc => (hrest c hc).1
  cases hpoint with
  | none =>
      split
      · next heq => exact absurd rfl (hrest '.' (by rw [← List.nil_append rest, heq]; rfl)).2
      · rfl
  | some hds => simp [Text.takeWhile_run hds hdigit, Text.dropWhile_run hds hdigit]

end Decimal

/-- What follows the digits of a numeral does not go on with them. -/
theorem Exponent.head (h : Exponent exponent e) :
    ∀ c ∈ exponent.head?, c.isDigit = false ∧ c ≠ '.' := by
  cases h with
  | none => simp
  | some hmark => rcases hmark with rfl | rfl <;> simp

theorem Point.head (hwhole : IsDigits whole) (hpoint : Point point fraction)
    (hne : whole ++ fraction ≠ []) (rest : List Char) :
    ∀ c ∈ (whole ++ (point ++ rest)).head?, c ≠ '-' ∧ c ≠ '+' := by
  cases whole with
  | cons d ds => exact fun c hc => hwhole.not_sign c hc
  | nil =>
      cases hpoint with
      | none => exact absurd rfl hne
      | some => simp

namespace Decimal

theorem value_eq (negative : Bool) (whole fraction : List Char) (e : ℤ) :
    value ⟨negative, ofDigits (whole ++ fraction), e - fraction.length⟩ =
      signed negative ((ofDigits whole + ofDigits fraction / 10 ^ fraction.length) * 10 ^ e) := by
  rw [value, ofDigits_append, zpow_sub₀ (by norm_num), zpow_natCast]
  congr 1
  push_cast
  field_simp

/-- A text is read exactly if it is a numeral, and then as the number that it writes. -/
theorem exists_ofChars?_iff {r : ℚ} :
    (∃ x, ofChars? cs = some x ∧ x.value = r) ↔ IsNumeral cs r := by
  constructor
  · rintro ⟨x, hx, rfl⟩
    rcases hs : takeSign cs with ⟨negative, body⟩
    rcases hm : takeMantissa body with ⟨whole, fraction, rest⟩
    simp only [ofChars?, hs, hm] at hx
    obtain ⟨hne, hx⟩ := Option.ite_none_left_eq_some.mp hx
    obtain ⟨e, he, rfl⟩ := Option.map_eq_some_iff.mp hx
    obtain ⟨sign, rfl, hsign⟩ := exists_sign hs
    obtain ⟨point, rfl, hwhole, hpoint⟩ := exists_point hm
    rw [value_eq]
    exact .mk hsign hwhole hpoint hne (exponentPart?_eq_some_iff.mp he)
  · rintro ⟨hsign, hwhole, hpoint, hne, hexponent⟩
    refine ⟨_, ?_, value_eq _ _ _ _⟩
    simp only [ofChars?, hsign.take (hpoint.head hwhole hne _),
      takeMantissa_append hwhole hpoint hexponent.head, if_neg hne,
      exponentPart?_eq_some_iff.mpr hexponent, Option.map_some]

end Decimal

namespace IsNumeral

variable {r s : ℚ}

/-- A numeral writes one number. -/
protected theorem unique (hr : IsNumeral cs r) (hs : IsNumeral cs s) : r = s := by
  obtain ⟨x, hx, rfl⟩ := Decimal.exists_ofChars?_iff.mpr hr
  obtain ⟨y, hy, rfl⟩ := Decimal.exists_ofChars?_iff.mpr hs
  rw [hx] at hy
  rw [Option.some.inj hy]

theorem exists_digit (h : IsNumeral cs r) : ∃ c ∈ cs, c.isDigit = true := by
  obtain ⟨-, hwhole, hpoint, hne, -⟩ := h
  obtain ⟨c, hc⟩ := List.exists_mem_of_ne_nil _ hne
  cases hpoint with
  | none => exact ⟨c, by simp_all, hwhole c (by simpa using hc)⟩
  | some hds =>
      rcases List.mem_append.mp hc with hc | hc
      · exact ⟨c, by simp [hc], hwhole c hc⟩
      · exact ⟨c, by simp [hc], hds c hc⟩

theorem ne_nil (h : IsNumeral cs r) : cs ≠ [] := by
  obtain ⟨c, hc, -⟩ := h.exists_digit
  exact List.ne_nil_of_mem hc

end IsNumeral

end

/-! ## The floor of a numeral -/

/-- A numeral whose number rounds to the finite double `v`. -/
def IsFinite (cs : List Char) (v : ℚ) : Prop :=
  ∃ r, IsNumeral cs r ∧ IsNearest r v ∧ |v| < 2 ^ 1024

theorem floor64?_eq_some_iff {s : String} {n : ℤ} :
    floor64? s = some n ↔ ∃ v, IsFinite s.toList v ∧ n = saturate64 ⌊v⌋ := by
  rw [floor64?, Option.bind_eq_some_iff]
  constructor
  · rintro ⟨x, hx, hn⟩
    obtain ⟨d, hd, rfl⟩ := Option.map_eq_some_iff.mp hn
    have hrounds := x.rounds_nearest?
    rw [hd] at hrounds
    cases hrounds with
    | finite hnearest hlt =>
        exact ⟨d.value, ⟨x.value, Decimal.exists_ofChars?_iff.mp ⟨x, hx, rfl⟩, hnearest, hlt⟩,
          by rw [d.floor_eq]⟩
  · rintro ⟨v, ⟨r, hr, hv, hlt⟩, rfl⟩
    obtain ⟨x, hx, rfl⟩ := Decimal.exists_ofChars?_iff.mpr hr
    refine ⟨x, hx, ?_⟩
    cases hd : x.nearest? with
    | none =>
        have hrounds := x.rounds_nearest?
        rw [hd] at hrounds
        cases hrounds with
        | overflow hw hle => exact absurd (hw.unique hv ▸ hle) (not_le.mpr hlt)
    | some d =>
        have hrounds := x.rounds_nearest?
        rw [hd] at hrounds
        cases hrounds with
        | finite hw _ => rw [Option.map_some, d.floor_eq, hw.unique hv]

theorem floor64?_eq_none_iff {s : String} : floor64? s = none ↔ ∀ v, ¬ IsFinite s.toList v := by
  rw [Option.eq_none_iff_forall_ne_some]
  constructor
  · exact fun h v hv => h _ (floor64?_eq_some_iff.mpr ⟨v, hv, rfl⟩)
  · rintro h n hn
    obtain ⟨v, hv, -⟩ := floor64?_eq_some_iff.mp hn
    exact h v hv

theorem saturate64_mono {m n : ℤ} (h : m ≤ n) : saturate64 m ≤ saturate64 n := by
  unfold saturate64
  omega

theorem saturate64_eq_max_min (n : ℤ) : saturate64 n = max (-2 ^ 63) (min n (2 ^ 63 - 1)) := by
  norm_num [saturate64]

namespace IsFinite

variable {cs ds : List Char} {r s v w : ℚ}

theorem ne_nil (h : IsFinite cs v) : cs ≠ [] := by
  obtain ⟨r, hr, -⟩ := h
  exact hr.ne_nil

/-- The double of a numeral is that of the number. -/
theorem isNearest (h : IsFinite cs v) (hr : IsNumeral cs r) : IsNearest r v := by
  obtain ⟨s, hs, hv, -⟩ := h
  rwa [hr.unique hs]

protected theorem unique (hv : IsFinite cs v) (hw : IsFinite cs w) : v = w := by
  obtain ⟨r, hr, hnearest, -⟩ := hv
  exact hnearest.unique (hw.isNearest hr)

theorem mono (hv : IsFinite cs v) (hw : IsFinite ds w) (hr : IsNumeral cs r) (hs : IsNumeral ds s)
    (hle : r ≤ s) : v ≤ w :=
  (hv.isNearest hr).mono (hw.isNearest hs) hle

end IsFinite

end CestWriter.Number
