import CestWriter.Files.Path
import CestWriter.Proofs.Text.Cut

/-! # Paths of files in a directory -/

namespace CestWriter.Path

/-- A name that an entry of a directory can have. -/
structure IsEntryName (name : String) : Prop where
  ne_empty : name ≠ ""
  noSlash : '/' ∉ name.toList
  noNull : '\x00' ∉ name.toList
  ne_dot : name ≠ "."
  ne_dots : name ≠ ".."

variable {dir name : String}

theorem names_append_slash (lead rest : String) :
    names (lead ++ "/" ++ rest) = names lead ++ names rest := by
  rw [names, Text.split, String.toList_append, String.toList_append, List.append_assoc]
  show (List.map _ (Text.splitChars '/' (lead.toList ++ '/' :: rest.toList))).filter _ = _
  rw [Text.splitChars_append, List.map_append, List.filter_append]
  rfl

theorem names_of_isEntryName (h : IsEntryName name) : names name = [name] := by
  rw [names, Text.split, Text.splitChars_of_not_mem h.noSlash, List.map_singleton, String.ofList_toList,
    List.filter_singleton]
  simp [h.ne_empty]

/-- A path that ends in a slash, less this slash. -/
theorem exists_of_endsInSlash (h : endsInSlash dir = true) : ∃ lead, dir = lead ++ "/" := by
  obtain ⟨lead, hlead⟩ := List.getLast?_eq_some_iff.mp (beq_iff_eq.mp h)
  exact ⟨String.ofList lead, by rw [← String.toList_inj, hlead]; simp⟩

theorem isAbsolute_of_isEntryName (h : IsEntryName name) : isAbsolute name = false := by
  rw [isAbsolute, Text.startsWith]
  cases hcs : name.toList with
  | nil => rfl
  | cons c cs =>
      have hc : '/' ≠ c := fun he => h.noSlash (hcs ▸ he ▸ List.mem_cons_self)
      simp [List.isPrefixOf, hc]

theorem isAbsolute_append (h : dir ≠ "") (rest : String) :
    isAbsolute (dir ++ rest) = isAbsolute dir := by
  rw [isAbsolute, isAbsolute, Text.startsWith, Text.startsWith, String.toList_append]
  cases hcs : dir.toList with
  | nil => exact absurd (String.toList_eq_nil_iff.mp hcs) h
  | cons c cs => simp [List.isPrefixOf]

theorem names_join (h : IsEntryName name) : names (join dir name) = names dir ++ [name] := by
  rw [join, isAbsolute_of_isEntryName h, if_neg Bool.false_ne_true]
  split_ifs with hdir
  · rw [Bool.or_eq_true] at hdir
    rcases hdir with hempty | hslash
    · obtain rfl := String.isEmpty_iff.mp hempty
      rw [String.empty_append, names_of_isEntryName h]
      rfl
    · obtain ⟨lead, rfl⟩ := exists_of_endsInSlash hslash
      have hlead := names_append_slash lead ""
      rw [String.append_empty] at hlead
      rw [names_append_slash, names_of_isEntryName h, hlead]
      simp [names, Text.split, Text.splitChars]
  · rw [names_append_slash, names_of_isEntryName h]

theorem isAbsolute_join (h : IsEntryName name) : isAbsolute (join dir name) = isAbsolute dir := by
  rw [join, isAbsolute_of_isEntryName h, if_neg Bool.false_ne_true]
  by_cases hempty : dir = ""
  · subst hempty
    exact isAbsolute_of_isEntryName h
  · split_ifs
    · exact isAbsolute_append hempty name
    · rw [String.append_assoc]
      exact isAbsolute_append hempty _

theorem endsInSlash_join (h : IsEntryName name) : endsInSlash (join dir name) = false := by
  have hlast : ∀ lead : String, endsInSlash (lead ++ name) = false := by
    intro lead
    rw [endsInSlash, String.toList_append, beq_eq_false_iff_ne]
    intro he
    have hne : name.toList ≠ [] := fun hnil => h.ne_empty (String.toList_eq_nil_iff.mp hnil)
    rw [List.getLast?_append_of_ne_nil _ hne] at he
    exact h.noSlash (List.mem_of_getLast? he)
  rw [join, isAbsolute_of_isEntryName h, if_neg Bool.false_ne_true]
  split_ifs
  · exact hlast dir
  · exact hlast (dir ++ "/")

theorem check_eq_ok_iff {path : String} : check path = .ok () ↔
    '\x00' ∉ path.toList ∧ path ≠ "" ∧ path.utf8ByteSize < limit := by
  rw [check]
  split_ifs with hnull hempty hlimit
  · simp [List.contains_iff_mem.mp hnull]
  · simp [String.isEmpty_iff.mp hempty]
  · simp [Nat.not_lt.mpr hlimit]
  · simp only [List.contains_iff_mem] at hnull
    simp only [String.isEmpty_iff] at hempty
    simp [hnull, hempty, Nat.not_le.mp hlimit]

/-- A file of a directory has a path if it is short enough. -/
theorem check_join (h : IsEntryName name) (hdir : check dir = .ok ())
    (hshort : (join dir name).utf8ByteSize < limit) : check (join dir name) = .ok () := by
  obtain ⟨hnull, hne, -⟩ := check_eq_ok_iff.mp hdir
  have hempty : dir.isEmpty = false := by simpa [String.isEmpty_iff] using hne
  rw [check_eq_ok_iff]
  rw [join, isAbsolute_of_isEntryName h, if_neg Bool.false_ne_true, hempty] at hshort ⊢
  refine ⟨?_, ?_, hshort⟩
  · split_ifs <;> simp [hnull, h.noNull]
  · split_ifs <;> simp [hne]

end CestWriter.Path
