import CestWriter.Proofs.Json.Value
import CestWriter.Text.Blank

/-! # The text of a value on one line

Such a text has no line feed and no blank at either end, so it travels as a line of its own. -/

namespace CestWriter

/-! ## Trimming -/

namespace Text

theorem isBlank_of_isDigit {c : Char} (h : c.isDigit = true) : isBlank c = false := by
  have hbounds : 48 ≤ c.toNat ∧ c.toNat ≤ 57 := by
    simpa [Char.isDigit, UInt32.le_iff_toNat_le] using h
  simp only [isBlank, Bool.or_eq_false_iff, Bool.and_eq_false_iff, beq_eq_false_iff_ne,
    decide_eq_false_iff_not]
  omega

/-- The text begins and ends with characters that are no blanks. -/
structure Trimmed (cs : List Char) : Prop where
  head : ∃ c, cs.head? = some c ∧ isBlank c = false
  last : ∃ c, cs.getLast? = some c ∧ isBlank c = false

theorem Trimmed.trim {s : String} (h : Trimmed s.toList) : trim s = s := by
  have hdrop {c : Char} {cs : List Char} (hhead : cs.head? = some c) (hc : isBlank c = false) :
      cs.dropWhile isBlank = cs := by
    obtain ⟨tail, rfl⟩ := List.head?_eq_some_iff.mp hhead
    exact List.dropWhile_cons_of_neg (by simp [hc])
  obtain ⟨a, ha, hablank⟩ := h.head
  obtain ⟨z, hz, hzblank⟩ := h.last
  apply String.toList_injective
  rw [Text.trim, String.toList_ofList, trimChars, hdrop ha hablank,
    hdrop (List.head?_reverse.trans hz) hzblank, List.reverse_reverse]

/-- Text between two characters that are no blanks. -/
theorem trimmed_between {a z : Char} (ha : isBlank a = false) (hz : isBlank z = false)
    (cs : List Char) : Trimmed (a :: (cs ++ [z])) :=
  ⟨⟨a, rfl, ha⟩, ⟨z, by rw [← List.cons_append, List.getLast?_concat], hz⟩⟩

end Text

namespace Json

open Text (Trimmed isBlank_of_isDigit trimmed_between)

/-! ## Numerals -/

namespace Numeral

theorem IsDigits.last {ds : List Char} (h : IsDigits ds) (cs : List Char) :
    ∃ c, (cs ++ ds).getLast? = some c ∧ c.isDigit = true :=
  ⟨ds.getLast h.ne_nil, by rw [List.getLast?_append_of_ne_nil _ h.ne_nil, List.getLast?_eq_some_getLast],
    h.isDigit _ (List.getLast_mem h.ne_nil)⟩

theorem Parts.Spells.last {p : Parts} {cs : List Char} (h : p.Spells cs) :
    ∃ c, cs.getLast? = some c ∧ c.isDigit = true := by
  obtain ⟨negative, whole, f, x⟩ := p
  obtain @⟨sign, fraction, exponent, hsign, hwhole, hfraction, hexponent⟩ := h
  dsimp only at hsign hwhole hfraction hexponent ⊢
  cases hexponent with
  | absent =>
      cases hfraction with
      | absent => simpa using IsDigits.last ⟨hwhole.ne_nil, hwhole.isDigit⟩ sign
      | present h => simpa using h.last (sign ++ whole ++ ['.'])
  | @bare mark ds hm h => simpa using h.last (sign ++ whole ++ fraction ++ [mark])
  | @plus mark ds hm h => simpa using h.last (sign ++ whole ++ fraction ++ [mark, '+'])
  | @minus mark ds hm h => simpa using h.last (sign ++ whole ++ fraction ++ [mark, '-'])

theorem le_toNat_of_isDigit {c : Char} (h : c.isDigit = true) : 32 ≤ c.toNat := by
  have hbounds : 48 ≤ c.toNat ∧ c.toNat ≤ 57 := by
    simpa [Char.isDigit, UInt32.le_iff_toNat_le] using h
  omega

theorem Parts.Spells.le_toNat {p : Parts} {cs : List Char} (h : p.Spells cs) :
    ∀ c ∈ cs, 32 ≤ c.toNat := by
  have hdigits {ds : List Char} (hds : IsDigits ds) : ∀ c ∈ ds, 32 ≤ c.toNat :=
    fun c hc => le_toNat_of_isDigit (hds.isDigit c hc)
  have hmark {mark : Char} (hm : mark = 'e' ∨ mark = 'E') : 32 ≤ mark.toNat := by
    rcases hm with rfl | rfl <;> decide
  obtain ⟨negative, whole, f, x⟩ := p
  obtain ⟨hsign, hwhole, hfraction, hexponent⟩ := h
  dsimp only at hsign hwhole hfraction hexponent ⊢
  refine List.forall_mem_append.mpr ⟨?_, List.forall_mem_append.mpr ⟨?_,
    List.forall_mem_append.mpr ⟨?_, ?_⟩⟩⟩
  · cases hsign <;> simp
  · exact hdigits ⟨hwhole.ne_nil, hwhole.isDigit⟩
  · cases hfraction with
    | absent => simp
    | present h => exact List.forall_mem_cons.mpr ⟨by decide, hdigits h⟩
  · cases hexponent with
    | absent => simp
    | bare hm h => exact List.forall_mem_cons.mpr ⟨hmark hm, hdigits h⟩
    | plus hm h | minus hm h =>
        exact List.forall_mem_cons.mpr ⟨hmark hm, List.forall_mem_cons.mpr ⟨by decide, hdigits h⟩⟩

end Numeral

/-! ## Values -/

theorem forall_mem_intercalate {P : Char → Prop} {separator : List Char} {parts : List (List Char)}
    (hseparator : ∀ c ∈ separator, P c) (hparts : ∀ part ∈ parts, ∀ c ∈ part, P c) :
    ∀ c ∈ separator.intercalate parts, P c := by
  induction parts with
  | nil => simp
  | cons part parts ih =>
      obtain ⟨hpart, hrest⟩ := List.forall_mem_cons.mp hparts
      cases parts with
      | nil => simpa using hpart
      | cons next parts =>
          rw [List.intercalate_cons_cons]
          exact List.forall_mem_append.mpr ⟨List.forall_mem_append.mpr ⟨hpart, hseparator⟩, ih hrest⟩

theorem le_toNat_of_all {text : String} (h : text.toList.all (32 ≤ ·.toNat) = true) :
    ∀ c ∈ text.toList, 32 ≤ c.toNat := by
  simpa using h

/-- Neither a line feed nor any other control character stands in the text. -/
theorem le_toNat_of_mem_render (v : Json) : ∀ c ∈ v.render.toList, 32 ≤ c.toNat := by
  have hcomma : ∀ c ∈ (",").toList, 32 ≤ c.toNat := le_toNat_of_all (by decide)
  induction v using ind with
  | null => exact le_toNat_of_all (by decide)
  | bool b => cases b <;> exact le_toNat_of_all (by decide)
  | number n => exact n.spells_render.le_toNat
  | string s => exact fun c hc => le_toNat_of_mem_quote hc
  | array items ih =>
      rw [render, renderItems_eq]
      simp only [String.toList_append, String.toList_intercalate, List.map_map]
      refine List.forall_mem_append.mpr ⟨List.forall_mem_append.mpr
        ⟨le_toNat_of_all (by decide), ?_⟩, le_toNat_of_all (by decide)⟩
      exact forall_mem_intercalate hcomma (List.forall_mem_map.mpr ih)
  | object fields ih =>
      rw [render, renderFields_eq]
      simp only [String.toList_append, String.toList_intercalate, List.map_map]
      refine List.forall_mem_append.mpr ⟨List.forall_mem_append.mpr
        ⟨le_toNat_of_all (by decide), ?_⟩, le_toNat_of_all (by decide)⟩
      refine forall_mem_intercalate hcomma (List.forall_mem_map.mpr fun f hf => ?_)
      simp only [Function.comp_apply, String.toList_append]
      refine List.forall_mem_append.mpr ⟨List.forall_mem_append.mpr
        ⟨?_, le_toNat_of_all (by decide)⟩, ih f hf⟩
      exact fun c hc => le_toNat_of_mem_quote hc

theorem trimmed_render (v : Json) : Trimmed v.render.toList := by
  cases v with
  | null => exact trimmed_between (a := 'n') (z := 'l') rfl rfl ['u', 'l']
  | bool b =>
      cases b with
      | true => exact trimmed_between (a := 't') (z := 'e') rfl rfl ['r', 'u']
      | false => exact trimmed_between (a := 'f') (z := 'e') rfl rfl ['a', 'l', 's']
  | number n =>
      obtain ⟨a, tail, ha, hbegins⟩ := n.spells_render.head
      obtain ⟨z, hz, hdigit⟩ := n.spells_render.last
      refine ⟨⟨a, ?_, ?_⟩, ⟨z, hz, isBlank_of_isDigit hdigit⟩⟩
      · rw [render, ha, List.head?_cons]
      · rcases hbegins with rfl | hdigit
        · rfl
        · exact isBlank_of_isDigit hdigit
  | string s =>
      rw [render, toList_quote]
      exact trimmed_between rfl rfl _
  | array items =>
      rw [render, String.toList_append, String.toList_append, List.append_assoc]
      exact trimmed_between (a := '[') (z := ']') rfl rfl _
  | object fields =>
      rw [render, String.toList_append, String.toList_append, List.append_assoc]
      exact trimmed_between (a := '\x7b') (z := '\x7d') rfl rfl _

end Json

end CestWriter
