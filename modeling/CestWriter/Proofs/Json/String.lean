import CestWriter.Json.Render
import CestWriter.Json.Text
import Mathlib.Data.List.Basic

/-! # Strings in JSON text

Between its quotes a string is spelled code by code. Reading finds just the codes that are spelled,
and the codes of a quoted text are those of its characters. -/

namespace CestWriter.Json

/-! ## Codes -/

/-- The text begins with the inside of a string and its closing quote, and `rest` follows. A plain
character is its own code, and an escape stands for a code. -/
inductive Codes : List Nat → List Char → List Char → Prop
  | close (rest : List Char) : Codes [] ('"' :: rest) rest
  | plain {c : Char} {codes cs rest} (hquote : c ≠ '"') (hslash : c ≠ '\\') (hc : 32 ≤ c.toNat)
      (h : Codes codes cs rest) : Codes (c.toNat :: codes) (c :: cs) rest
  | escape {c : Char} {n : Nat} {codes cs rest} (hc : escaped? c = some n)
      (h : Codes codes cs rest) : Codes (n :: codes) ('\\' :: c :: cs) rest
  | hex {a b c d : Char} {i j k l : Nat} {codes cs rest} (ha : hexValue? a = some i)
      (hb : hexValue? b = some j) (hc : hexValue? c = some k) (hd : hexValue? d = some l)
      (h : Codes codes cs rest) :
      Codes ((((i * 16 + j) * 16 + k) * 16 + l) :: codes) ('\\' :: 'u' :: a :: b :: c :: d :: cs) rest

theorem Codes.length_lt {codes : List Nat} {cs rest : List Char} (h : Codes codes cs rest) :
    rest.length < cs.length := by
  induction h with
  | close rest => simp
  | plain _ _ _ _ ih => simp only [List.length_cons]; omega
  | escape _ _ ih => simp only [List.length_cons]; omega
  | hex _ _ _ _ _ ih => simp only [List.length_cons]; omega

theorem Codes.takeCodes?_eq {codes : List Nat} {cs rest : List Char} (h : Codes codes cs rest)
    (done : List Nat) : takeCodes? done cs = some (codes.reverse ++ done, rest) := by
  induction h generalizing done with
  | close rest => simp [takeCodes?]
  | @plain c codes cs rest hquote hslash hc _ ih =>
      have hplain : ¬(c.toNat < 32 ∨ c = '\\') := not_or.mpr ⟨Nat.not_lt.mpr hc, hslash⟩
      rw [takeCodes?, if_neg hplain, ih]
      · simp
      · exact hquote
      · exact fun _ _ _ _ _ he _ => hslash he
      · exact fun _ _ he _ => hslash he
  | @escape c n codes cs rest hc _ ih =>
      have hu : c ≠ 'u' := by
        rintro rfl
        cases hc
      rw [takeCodes?, hc]
      · simp [ih]
      · exact fun _ _ _ _ _ he _ => hu he
  | hex ha hb hc hd _ ih => simp [takeCodes?, ha, hb, hc, hd, ih]

theorem codes_of_takeCodes? {done out : List Nat} {cs rest : List Char}
    (h : takeCodes? done cs = some (out, rest)) :
    ∃ codes, Codes codes cs rest ∧ out = codes.reverse ++ done := by
  fun_induction takeCodes? done cs with
  | case1 done cs =>
      obtain ⟨rfl, rfl⟩ := Prod.mk.inj (Option.some.inj h)
      exact ⟨[], .close _, rfl⟩
  | case2 done a b c d cs ih =>
      simp only [Option.bind_eq_bind, Option.bind_eq_some_iff] at h
      obtain ⟨i, ha, j, hb, k, hc, l, hd, h⟩ := h
      obtain ⟨codes, hcodes, rfl⟩ := ih i j k l h
      exact ⟨_, .hex ha hb hc hd hcodes, by simp⟩
  | case3 done c cs hu n hc ih =>
      obtain ⟨codes, hcodes, rfl⟩ := ih h
      exact ⟨_, .escape hc hcodes, by simp⟩
  | case4 => cases h
  | case5 => cases h
  | case6 done c cs hquote _ _ hplain ih =>
      rw [not_or, Nat.not_lt] at hplain
      obtain ⟨codes, hcodes, rfl⟩ := ih h
      exact ⟨_, .plain hquote hplain.2 hplain.1 hcodes, by simp⟩
  | case7 => cases h

/-! ## Characters of codes -/

/-- No surrogate stands alone: each is the first or the second of a pair. -/
inductive Paired : List Nat → Prop
  | nil : Paired []
  | plain {codes : List Nat} {n : Nat} (h : Paired codes) (hhigh : isHighSurrogate n = false)
      (hlow : isLowSurrogate n = false) : Paired (codes ++ [n])
  | pair {codes : List Nat} {high low : Nat} (h : Paired codes) (hhigh : isHighSurrogate high = true)
      (hlow : isLowSurrogate low = true) : Paired (codes ++ [high, low])

theorem joinCodes?_plain {n : Nat} (hhigh : isHighSurrogate n = false)
    (hlow : isLowSurrogate n = false) (done : List Char) (codes : List Nat) :
    joinCodes? done (n :: codes) = joinCodes? (Char.ofNat n :: done) codes := by
  rw [joinCodes?.eq_def]
  simp [hhigh, hlow]

theorem Paired.isSome_joinCodes? {codes : List Nat} (h : Paired codes) (done : List Char) :
    (joinCodes? done codes.reverse).isSome = true := by
  induction h generalizing done with
  | nil => rfl
  | plain _ hhigh hlow ih =>
      rw [List.reverse_append, List.reverse_singleton, List.singleton_append,
        joinCodes?_plain hhigh hlow]
      exact ih _
  | pair _ hhigh hlow ih => simp [joinCodes?, hhigh, hlow, ih]

theorem paired_of_joinCodes? {done : List Char} {backwards : List Nat}
    (h : (joinCodes? done backwards).isSome = true) : Paired backwards.reverse := by
  fun_induction joinCodes? done backwards with
  | case1 => exact .nil
  | case2 done low hlow high rest hhigh ih => simpa using (ih h).pair hhigh hlow
  | case3 => cases h
  | case4 => cases h
  | case5 => cases h
  | case6 done n rest hlow hhigh ih => simpa using (ih h).plain (by simpa using hhigh) (by simpa using hlow)

theorem isSome_joinCodes?_iff {codes : List Nat} :
    (joinCodes? [] codes.reverse).isSome = true ↔ Paired codes :=
  ⟨fun h => by simpa using paired_of_joinCodes? h, fun h => h.isSome_joinCodes? []⟩

theorem not_surrogate (c : Char) :
    isHighSurrogate c.toNat = false ∧ isLowSurrogate c.toNat = false := by
  have hvalid : c.toNat < 0xD800 ∨ 0xDFFF < c.toNat ∧ c.toNat < 0x110000 := c.valid
  simp only [isHighSurrogate, isLowSurrogate, Bool.and_eq_false_iff, decide_eq_false_iff_not]
  omega

theorem joinCodes?_append (done : List Char) (cs : List Char) (codes : List Nat) :
    joinCodes? done ((cs.map Char.toNat).reverse ++ codes) = joinCodes? (cs ++ done) codes := by
  induction cs generalizing codes with
  | nil => rfl
  | cons c cs ih =>
      obtain ⟨hhigh, hlow⟩ := not_surrogate c
      have h := ih (c.toNat :: codes)
      simp only [List.map_cons, List.reverse_cons, List.append_assoc, List.singleton_append]
      rw [h, joinCodes?_plain hhigh hlow, Char.ofNat_toNat]
      rfl

theorem joinCodes?_chars (cs : List Char) :
    joinCodes? [] (cs.map Char.toNat).reverse = some cs := by
  simpa [joinCodes?] using joinCodes?_append [] cs []

/-! ## Quoted texts -/

theorem hexValue?_hexDigit {n : Nat} (h : n < 16) : hexValue? (hexDigit n) = some n := by
  revert n
  decide

/-- The code of a character is spelled by the character or by its escape. -/
theorem Codes.escapeChar {codes : List Nat} {cs rest : List Char} (h : Codes codes cs rest)
    (c : Char) : Codes (c.toNat :: codes) (Json.escapeChar c ++ cs) rest := by
  unfold Json.escapeChar
  split
  · next e he =>
      unfold shortEscape? at he
      split at he <;> cases he <;> exact .escape (by rfl) h
  · next hnone =>
      split
      · next hc =>
          have hcode : ((0 * 16 + 0) * 16 + c.toNat / 16) * 16 + c.toNat % 16 = c.toNat := by omega
          have hzero : hexValue? '0' = some 0 := by decide
          have hcodes := Codes.hex hzero hzero (hexValue?_hexDigit (n := c.toNat / 16) (by omega))
            (hexValue?_hexDigit (n := c.toNat % 16) (by omega)) h
          rwa [hcode] at hcodes
      · next hc =>
          refine .plain ?_ ?_ (by omega) h
          · rintro rfl
            cases hnone
          · rintro rfl
            cases hnone

theorem codes_quote (s : String) (rest : List Char) :
    Codes (s.toList.map Char.toNat) (s.toList.flatMap escapeChar ++ '"' :: rest) rest := by
  induction s.toList with
  | nil => exact .close rest
  | cons c cs ih => simpa using ih.escapeChar c

theorem toList_quote (s : String) :
    (quote s).toList = '"' :: (s.toList.flatMap escapeChar ++ ['"']) :=
  String.toList_ofList

theorem le_toNat_of_mem_escapeChar {x c : Char} (h : c ∈ escapeChar x) : 32 ≤ c.toNat := by
  unfold escapeChar at h
  split at h
  · next e he =>
      have hletter : 32 ≤ e.toNat := by
        unfold shortEscape? at he
        split at he <;> cases he <;> decide
      simp only [List.mem_cons, List.not_mem_nil, or_false] at h
      rcases h with rfl | rfl
      · decide
      · exact hletter
  · split at h
    · next hx =>
        have hdigit (n : Nat) (hn : n < 16) : 32 ≤ (hexDigit n).toNat := by
          revert n
          decide
        simp only [List.mem_cons, List.not_mem_nil, or_false] at h
        rcases h with rfl | rfl | rfl | rfl | rfl | rfl
        · decide
        · decide
        · decide
        · decide
        · exact hdigit _ (by omega)
        · exact hdigit _ (by omega)
    · next hx =>
        obtain rfl := List.mem_singleton.mp h
        exact Nat.not_lt.mp hx

/-- Neither a line feed nor any other control character stands in a quoted text. -/
theorem le_toNat_of_mem_quote {s : String} {c : Char} (h : c ∈ (quote s).toList) :
    32 ≤ c.toNat := by
  rw [toList_quote] at h
  simp only [List.mem_cons, List.mem_append, List.mem_flatMap, List.not_mem_nil, or_false] at h
  rcases h with rfl | ⟨x, -, hx⟩ | rfl
  · decide
  · exact le_toNat_of_mem_escapeChar hx
  · decide

end CestWriter.Json
