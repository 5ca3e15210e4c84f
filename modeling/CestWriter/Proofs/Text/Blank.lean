import CestWriter.Text.Blank
import Mathlib.Data.List.TakeWhile

/-! # Trimming white space -/

namespace CestWriter.Text

theorem trimChars_eq_nil_iff {cs : List Char} : trimChars cs = [] ↔ ∀ c ∈ cs, isBlank c = true := by
  rw [trimChars, List.reverse_eq_nil_iff, List.dropWhile_eq_nil_iff]
  constructor
  · intro h
    rw [← List.dropWhile_eq_nil_iff]
    by_contra hne
    obtain ⟨c, rest, hrest⟩ := List.exists_cons_of_ne_nil hne
    have hc := List.head?_dropWhile_not isBlank cs
    rw [hrest] at hc h
    simp [h c (by simp)] at hc
  · intro h c hc
    exact h c ((List.dropWhile_sublist _).subset (List.mem_reverse.mp hc))

theorem toList_trim (s : String) : (trim s).toList = trimChars s.toList :=
  String.toList_ofList

theorem isEmpty_trim_iff {s : String} : (trim s).isEmpty = true ↔ trimChars s.toList = [] := by
  rw [String.isEmpty_iff, ← toList_trim, String.toList_eq_nil_iff]

theorem trim_isEmpty_iff {s : String} :
    (trim s).isEmpty = true ↔ ∀ c ∈ s.toList, isBlank c = true :=
  isEmpty_trim_iff.trans trimChars_eq_nil_iff

end CestWriter.Text
