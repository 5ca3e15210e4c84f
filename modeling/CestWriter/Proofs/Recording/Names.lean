import CestWriter.Identifier
import CestWriter.Proofs.Recording.Interpolation

/-! # Names that come out of recorded arguments -/

namespace CestWriter

open Text (isNameChar)

/-! ## References -/

theorem Segment.isName_of_mem_ofText {raw name : String}
    (h : Segment.reference name ∈ Segment.ofText raw) : IsName name.toList := by
  have hts := (Segment.tokens_iff raw _).mpr rfl
  apply hts.named
  exact List.mem_flatMap.mpr ⟨_, h, by simp [Segment.tokens]⟩

namespace Argument

theorem mem_argv_foldl {segments : List Segment} {s : Script} {name : String}
    (h : name ∈ (segments.foldl extendScript s).argv) :
    name ∈ s.argv ∨ Segment.reference name ∈ segments := by
  induction segments generalizing s with
  | nil => exact .inl h
  | cons x segments ih =>
      rcases ih h with h | h
      · cases x with
        | literal text => exact .inl h
        | reference other =>
            simp only [extendScript] at h
            split at h
            · exact .inl h
            · rcases List.mem_append.mp h with h | h
              · exact .inl h
              · simp_all
      · exact .inr (List.mem_cons_of_mem _ h)

/-- The names that a script takes as arguments are names of references. -/
theorem isName_of_mem_argv {raw name : String} (h : name ∈ (script raw).argv) :
    IsName name.toList := by
  rcases mem_argv_foldl h with h | h
  · simp at h
  · exact Segment.isName_of_mem_ofText h

theorem isName_of_variable_mem_keys {raw name : String} (h : KeyPart.variable name ∈ keys raw) :
    IsName name.toList := by
  obtain ⟨segment, hm, he⟩ := List.mem_map.mp h
  cases segment with
  | literal text => simp [keyPart] at he
  | reference other =>
      simp only [keyPart] at he
      split at he
      · simp at he
      · obtain rfl := KeyPart.variable.inj he
        exact Segment.isName_of_mem_ofText hm

theorem isNameChar_of_key_mem_keys {raw name : String} (h : KeyPart.key name ∈ keys raw) :
    ∀ c ∈ name.toList, isNameChar c = true := by
  obtain ⟨segment, hm, he⟩ := List.mem_map.mp h
  cases segment with
  | literal text => simp [keyPart] at he
  | reference other =>
      simp only [keyPart] at he
      split at he
      · rename_i key hk
        obtain rfl := KeyPart.key.inj he
        obtain ⟨rest, hr, rfl⟩ := Option.map_eq_some_iff.mp hk
        have happ := List.isPrefixOf?_eq_some_iff_append_eq.mp hr
        intro c hc
        rw [String.toList_ofList] at hc
        exact (Segment.isName_of_mem_ofText hm).2 c (happ ▸ List.mem_append_right _ hc)
      · simp at he

end Argument

/-! ## Identifiers -/

theorem Text.toNat_lt_of_isNameChar {c : Char} (h : isNameChar c = true) : c.toNat < 128 := by
  unfold isNameChar Char.isAlphanum Char.isAlpha Char.isUpper Char.isLower Char.isDigit at h
  simp only [Bool.or_eq_true, Bool.and_eq_true, decide_eq_true_eq, beq_iff_eq, ge_iff_le,
    UInt32.le_iff_toNat_le] at h
  rcases h with ((⟨-, h⟩ | ⟨-, h⟩) | ⟨-, h⟩) | rfl
  · exact Nat.lt_of_le_of_lt h (by decide)
  · exact Nat.lt_of_le_of_lt h (by decide)
  · exact Nat.lt_of_le_of_lt h (by decide)
  · decide

/-- What is true of all ASCII characters is true of the characters of names. -/
theorem Text.of_isNameChar {P : Char → Prop} (h : ∀ n < 128, P (Char.ofNat n)) {c : Char}
    (hc : isNameChar c = true) : P c := by
  simpa using h c.toNat (toNat_lt_of_isNameChar hc)

theorem Text.isNameChar_of_mem_lower {d : Char} (h : isNameChar d = true) :
    ∀ c ∈ lower d, isNameChar c = true := by
  have hlower : isNameChar d = true → isNameChar d.toLower = true :=
    of_isNameChar (P := fun d => isNameChar d = true → isNameChar d.toLower = true) (by decide) h
  rw [lower, if_pos (toNat_lt_of_isNameChar h)]
  simpa using hlower h

theorem Text.isNameChar_of_mem_upper {d : Char} (h : isNameChar d = true) :
    ∀ c ∈ upper d, isNameChar c = true := by
  have hupper : isNameChar d = true → isNameChar d.toUpper = true :=
    of_isNameChar (P := fun d => isNameChar d = true → isNameChar d.toUpper = true) (by decide) h
  rw [upper, if_pos (toNat_lt_of_isNameChar h)]
  simpa using hupper h

namespace Identifier

theorem isNameChar_of_mem_sanitize {name : String} :
    ∀ c ∈ (sanitize name).toList, isNameChar c = true := by
  intro c hc
  simp only [sanitize, String.toList_ofList] at hc
  exact List.of_mem_filter hc

theorem toList_capitalize_sanitize (name : String) : (Text.capitalize (sanitize name)).toList =
    ((sanitize name).toList.head?.map Char.toUpper).toList ++ (sanitize name).toList.tail := by
  have hs := @isNameChar_of_mem_sanitize name
  rw [Text.capitalize, String.toList_ofList]
  cases hcs : (sanitize name).toList with
  | nil => rfl
  | cons c cs =>
      rw [hcs, List.forall_mem_cons] at hs
      rw [Text.capitalizeChars, Text.upper, if_pos (Text.toNat_lt_of_isNameChar hs.1)]
      rfl

theorem toList_helperName (name : String) : (helperName name).toList =
    ((sanitize name).toList.head?.map Char.toLower).toList ++ (sanitize name).toList.tail := by
  have hs := @isNameChar_of_mem_sanitize name
  rw [helperName, Text.uncapitalize, String.toList_ofList]
  cases hcs : (sanitize name).toList with
  | nil => rfl
  | cons c cs =>
      rw [hcs, List.forall_mem_cons] at hs
      rw [Text.uncapitalizeChars, Text.lower, if_pos (Text.toNat_lt_of_isNameChar hs.1)]
      rfl

/-- The name of a helper method has no other characters than an identifier can hold. -/
theorem isNameChar_of_mem_helperName {name : String} :
    ∀ c ∈ (helperName name).toList, isNameChar c = true := by
  have hs := @isNameChar_of_mem_sanitize name
  simp only [helperName, Text.uncapitalize, String.toList_ofList]
  cases hcs : (sanitize name).toList with
  | nil => simp [Text.uncapitalizeChars]
  | cons d ds =>
      rw [hcs, List.forall_mem_cons] at hs
      exact List.forall_mem_append.mpr ⟨Text.isNameChar_of_mem_lower hs.1, hs.2⟩

theorem isNameChar_of_mem_testMethodName {name : String} :
    ∀ c ∈ (testMethodName name).toList, isNameChar c = true := by
  have hs := @isNameChar_of_mem_sanitize name
  simp only [testMethodName, Text.capitalize, String.toList_append, String.toList_ofList]
  refine List.forall_mem_append.mpr ⟨List.all_eq_true.mp (by decide), ?_⟩
  cases hcs : (sanitize name).toList with
  | nil => simp [Text.capitalizeChars]
  | cons d ds =>
      rw [hcs, List.forall_mem_cons] at hs
      exact List.forall_mem_append.mpr ⟨Text.isNameChar_of_mem_upper hs.1, hs.2⟩

theorem isNameChar_of_mem_className {name : String} :
    ∀ c ∈ (className name).toList, Text.isNameChar c = true := by
  have htest := @isNameChar_of_mem_testMethodName name
  simp only [testMethodName, className, String.toList_append, List.forall_mem_append] at htest ⊢
  exact ⟨htest.2, List.all_eq_true.mp (by decide)⟩

end Identifier

end CestWriter
