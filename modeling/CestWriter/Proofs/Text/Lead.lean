import CestWriter.Text.Cut
import Mathlib.Data.List.Basic

/-! # How texts begin -/

namespace CestWriter.Text

theorem startsWith_iff {lead s : String} :
    startsWith lead s = true ↔ ∃ rest, s.toList = lead.toList ++ rest := by
  rw [startsWith, List.isPrefixOf_iff_prefix]
  exact ⟨fun ⟨rest, h⟩ => ⟨rest, h.symm⟩, fun ⟨rest, h⟩ => ⟨rest, h.symm⟩⟩

theorem startsWith_self (lead : String) : startsWith lead lead = true :=
  startsWith_iff.mpr ⟨[], by simp⟩

theorem startsWith_append {lead s : String} (h : startsWith lead s = true) (t : String) :
    startsWith lead (s ++ t) = true := by
  obtain ⟨rest, hrest⟩ := startsWith_iff.mp h
  exact startsWith_iff.mpr ⟨rest ++ t.toList, by simp [hrest]⟩

theorem startsWith_trans {lead lead' s : String} (h : startsWith lead lead' = true)
    (h' : startsWith lead' s = true) : startsWith lead s = true := by
  obtain ⟨rest, hrest⟩ := startsWith_iff.mp h
  obtain ⟨rest', hrest'⟩ := startsWith_iff.mp h'
  exact startsWith_iff.mpr ⟨rest ++ rest', by rw [hrest', hrest, List.append_assoc]⟩

/-! ## One line of a text -/

theorem toList_oneLine (s : String) : (oneLine s).toList =
    s.toList.map fun c => if c = '\r' ∨ c = '\n' then ' ' else c :=
  String.toList_ofList

theorem oneLine_append (s t : String) : oneLine (s ++ t) = oneLine s ++ oneLine t := by
  rw [← String.toList_inj]
  simp [toList_oneLine]

/-- A number is on one line. -/
theorem oneLine_toString (n : Nat) : oneLine (toString n) = toString n := by
  have hdigits : (toString n).toList = Nat.toDigits 10 n := String.toList_ofList
  rw [← String.toList_inj, toList_oneLine, hdigits]
  refine (List.map_congr_left fun c hc => if_neg ?_).trans (List.map_id' _)
  have hdigit := Nat.isDigit_of_mem_toDigits (by decide) (Nat.le_refl 10) hc
  rintro (rfl | rfl) <;> simp [Char.isDigit] at hdigit

/-- Making one line of a text leaves a beginning that is one line already. -/
theorem startsWith_oneLine {lead s : String} (hl : oneLine lead = lead)
    (h : startsWith lead s = true) : startsWith lead (oneLine s) = true := by
  obtain ⟨rest, hrest⟩ := startsWith_iff.mp h
  refine startsWith_iff.mpr ⟨rest.map fun c => if c = '\r' ∨ c = '\n' then ' ' else c, ?_⟩
  rw [toList_oneLine, hrest, List.map_append, ← toList_oneLine, hl]

/-! ## What follows a beginning -/

theorem after?_append (lead rest : String) : after? lead (lead ++ rest) = some rest := by
  have h : lead.toList.isPrefixOf? (lead.toList ++ rest.toList) = some rest.toList :=
    List.isPrefixOf?_eq_some_iff_append_eq.mpr rfl
  rw [after?, String.toList_append, h, Option.map_some, String.ofList_toList]

end CestWriter.Text
