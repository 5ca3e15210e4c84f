import CestWriter.Text.NameChar
import Mathlib.Data.List.Basic

/-! # Names and identifiers

A name is a run of name characters. One that does not begin with a digit is an identifier. -/

namespace CestWriter

namespace Text

/-! ## Runs of characters -/

section

variable {p : Char → Bool} {run rest : List Char}

/-- A run ends where nothing follows that would go on with it. -/
theorem takeWhile_run (hrun : ∀ c ∈ run, p c = true) (hrest : ∀ c ∈ rest.head?, p c = false) :
    (run ++ rest).takeWhile p = run := by
  rw [List.takeWhile_append_of_pos hrun]
  cases rest with
  | nil => simp
  | cons c rest => rw [List.takeWhile_cons_of_neg (by simpa using hrest c rfl), List.append_nil]

theorem dropWhile_run (hrun : ∀ c ∈ run, p c = true) (hrest : ∀ c ∈ rest.head?, p c = false) :
    (run ++ rest).dropWhile p = rest := by
  rw [List.dropWhile_append_of_pos hrun]
  cases rest with
  | nil => rfl
  | cons c rest => rw [List.dropWhile_cons_of_neg (by simpa using hrest c rfl)]

theorem takeWhile_append_cons {c : Char} (h : p c = false) (xs ys : List Char) :
    (xs ++ c :: ys).takeWhile p = xs.takeWhile p := by
  induction xs with
  | nil => simp [h]
  | cons x xs ih => rw [List.cons_append, List.takeWhile_cons, List.takeWhile_cons, ih]

end

theorem isDigit_eq_false_iff {c : Char} (h : isNameChar c = true) :
    c.isDigit = false ↔ c.isAlpha = true ∨ c = '_' := by
  have hletter : c.isAlpha = true → c.isDigit = false := by
    intro hc
    have hA : 'A'.val.toNat = 65 := rfl
    have ha : 'a'.val.toNat = 97 := rfl
    have h9 : '9'.val.toNat = 57 := rfl
    unfold Char.isAlpha Char.isUpper Char.isLower at hc
    unfold Char.isDigit
    simp only [Bool.or_eq_true, Bool.and_eq_true, decide_eq_true_eq, Bool.and_eq_false_iff,
      decide_eq_false_iff_not, ge_iff_le, UInt32.le_iff_toNat_le] at hc ⊢
    omega
  constructor
  · intro hdigit
    simpa [isNameChar, Char.isAlphanum, hdigit] using h
  · rintro (hc | rfl)
    · exact hletter hc
    · decide

end Text

/-! ## Identifiers -/

/-- A letter or an underscore, and then letters, digits and underscores. -/
def Php.IsIdentifier (cs : List Char) : Prop :=
  ∃ c rest, cs = c :: rest ∧ (c.isAlpha = true ∨ c = '_') ∧
    ∀ d ∈ rest, d.isAlphanum = true ∨ d = '_'

theorem Php.isIdentifier_iff {cs : List Char} (h : ∀ c ∈ cs, Text.isNameChar c = true) :
    IsIdentifier cs ↔ ∃ c, cs.head? = some c ∧ c.isDigit = false := by
  cases cs with
  | nil => simp [IsIdentifier]
  | cons c rest =>
      obtain ⟨hc, hrest⟩ := List.forall_mem_cons.mp h
      constructor
      · rintro ⟨d, tail, he, hd, -⟩
        obtain ⟨rfl, rfl⟩ := List.cons.inj he
        exact ⟨c, rfl, (Text.isDigit_eq_false_iff hc).mpr hd⟩
      · rintro ⟨d, he, hd⟩
        obtain rfl := Option.some.inj he
        exact ⟨c, rest, rfl, (Text.isDigit_eq_false_iff hc).mp hd,
          fun d hm => by simpa [Text.isNameChar] using hrest d hm⟩

end CestWriter
