import CestWriter.Number.Whole
import Mathlib.Data.List.Basic

/-! # Decimal numerals of integers -/

namespace CestWriter.Number

/-! ## Digits -/

/-- A numeral of a natural number that has no superfluous zero. -/
structure IsNatural (cs : List Char) : Prop where
  ne_nil : cs ≠ []
  isDigit : ∀ c ∈ cs, c.isDigit = true
  leading : cs.head? = some '0' → cs = ['0']

/-- A natural numeral, or a minus before one that is not zero. There is never a plus. -/
def IsInteger (cs : List Char) : Prop :=
  IsNatural cs ∨ ∃ ds, cs = '-' :: ds ∧ IsNatural ds ∧ ds ≠ ['0']

theorem head?_toDigits {n : Nat} (hn : n ≠ 0) : (Nat.toDigits 10 n).head? ≠ some '0' := by
  induction n using Nat.strongRecOn with
  | ind n ih =>
      by_cases h : n < 10
      · simp [Nat.toDigits_of_lt_base h, hn]
      · have hq := ih (n / 10) (by omega) (by omega)
        obtain ⟨d, ds, hd⟩ := List.exists_cons_of_ne_nil (Nat.toDigits_ne_nil (b := 10) (n := n / 10))
        rw [hd] at hq
        simpa [Nat.toDigits_of_base_le (by decide) (Nat.le_of_not_lt h), hd] using hq

theorem isNatural_toDigits (n : Nat) : IsNatural (Nat.toDigits 10 n) := by
  refine ⟨Nat.toDigits_ne_nil, fun c hc => ?_, fun h => ?_⟩
  · exact Nat.isDigit_of_mem_toDigits (by decide) (by decide) hc
  · by_cases hn : n = 0
    · subst hn
      rfl
    · exact (head?_toDigits hn h).elim

theorem ofDigits_toDigits (n : Nat) : ofDigits (Nat.toDigits 10 n) = n :=
  Nat.ofDigitChars_ten_toDigits

theorem toDigits_ne_zero {n : Nat} (hn : n ≠ 0) : Nat.toDigits 10 n ≠ ['0'] := by
  intro h
  exact head?_toDigits hn (by rw [h, List.head?_cons])

/-! ## The text of an integer -/

theorem toList_toString_natCast (n : Nat) : (toString (n : Int)).toList = Nat.toDigits 10 n := by
  rw [Int.toString_eq_repr, Int.repr_eq_if]
  simp [Nat.toList_repr]

theorem toList_toString_neg {n : Nat} (hn : n ≠ 0) :
    (toString (-(n : Int))).toList = '-' :: Nat.toDigits 10 n := by
  rw [Int.toString_eq_repr, Int.repr_eq_if]
  simp [hn, Nat.toList_repr]

/-- The text of an integer is its one canonical numeral. -/
theorem isInteger_toString (n : Int) : IsInteger (toString n).toList := by
  obtain ⟨m, rfl | rfl⟩ := Int.eq_nat_or_neg n
  · rw [toList_toString_natCast]
    exact .inl (isNatural_toDigits m)
  · by_cases hm : m = 0
    · subst hm
      exact .inl (isNatural_toDigits 0)
    · rw [toList_toString_neg hm]
      exact .inr ⟨_, rfl, isNatural_toDigits m, toDigits_ne_zero hm⟩

/-! ## Reading whole numbers -/

/-- One or more digits of the value `n`, with an optional plus before them. -/
def IsWhole (cs : List Char) (n : Nat) : Prop :=
  ∃ ds, (cs = ds ∨ cs = '+' :: ds) ∧ ds ≠ [] ∧ (∀ c ∈ ds, c.isDigit = true) ∧ ofDigits ds = n

theorem whole?_eq_some_iff {limit n : Nat} {s : String} :
    whole? limit s = some n ↔ IsWhole s.toList n ∧ n ≤ limit := by
  have hread (ds : List Char) : (if ds ≠ [] ∧ ds.all Char.isDigit ∧ ofDigits ds ≤ limit then
      some (ofDigits ds) else none) = some n ↔
      (ds ≠ [] ∧ (∀ c ∈ ds, c.isDigit = true) ∧ ofDigits ds = n) ∧ n ≤ limit := by
    rw [Option.ite_none_right_eq_some, List.all_eq_true]
    constructor
    · rintro ⟨⟨hne, hdigits, hlimit⟩, he⟩
      obtain rfl := Option.some.inj he
      exact ⟨⟨hne, hdigits, rfl⟩, hlimit⟩
    · rintro ⟨⟨hne, hdigits, rfl⟩, hlimit⟩
      exact ⟨⟨hne, hdigits, hlimit⟩, rfl⟩
  unfold whole?
  dsimp only
  split
  · next rest hs =>
      rw [hs, hread]
      refine and_congr_left fun _ => ⟨fun h => ⟨rest, .inr rfl, h⟩, ?_⟩
      rintro ⟨ds, rfl | he, hne, hdigits, hvalue⟩
      · exact absurd (hdigits '+' (.head _)) (by decide)
      · obtain rfl := (List.cons.inj he).2
        exact ⟨hne, hdigits, hvalue⟩
  · next hs =>
      rw [hread]
      refine and_congr_left fun _ => ⟨fun h => ⟨_, .inl rfl, h⟩, ?_⟩
      rintro ⟨ds, rfl | he, h⟩
      · exact h
      · exact absurd he (hs ds)

end CestWriter.Number
