import CestWriter.Text.Cut
import Mathlib.Data.List.Basic

/-! # Parts between separators -/

namespace CestWriter.Text

theorem splitChars_ne_nil (c : Char) (cs : List Char) : splitChars c cs ≠ [] := by
  cases cs with
  | nil => exact List.cons_ne_nil _ _
  | cons x xs =>
      rw [splitChars]
      split
      · split <;> exact List.cons_ne_nil _ _
      · exact List.cons_ne_nil _ _

theorem splitChars_cons {c x : Char} {xs part : List Char} {parts : List (List Char)}
    (h : splitChars c xs = part :: parts) :
    splitChars c (x :: xs) = if x = c then [] :: part :: parts else (x :: part) :: parts := by
  rw [splitChars, h]

theorem splitChars_append (c : Char) (cs rest : List Char) :
    splitChars c (cs ++ c :: rest) = splitChars c cs ++ splitChars c rest := by
  induction cs with
  | nil =>
      obtain ⟨part, parts, h⟩ := List.exists_cons_of_ne_nil (splitChars_ne_nil c rest)
      rw [List.nil_append, splitChars_cons h, if_pos rfl, h]
      rfl
  | cons x cs ih =>
      obtain ⟨part, parts, h⟩ := List.exists_cons_of_ne_nil (splitChars_ne_nil c cs)
      rw [h] at ih
      rw [List.cons_append, splitChars_cons ih, splitChars_cons h]
      split_ifs <;> rfl

theorem splitChars_of_not_mem {c : Char} {cs : List Char} (h : c ∉ cs) : splitChars c cs = [cs] := by
  induction cs with
  | nil => rfl
  | cons x cs ih =>
      rw [List.mem_cons, not_or] at h
      rw [splitChars_cons (ih h.2), if_neg (Ne.symm h.1)]

end CestWriter.Text
