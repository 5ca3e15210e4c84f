import CestWriter.Proofs.Recording.Prepared
import CestWriter.Proofs.Text.Lead

/-! # Prepared text is cut where the recorded text is

Preparing an argument adds backslashes before backslashes and quotes, and breaks the literal around
each reference. It adds no character that separates the parts of an argument, so cutting and preparing
may change places. -/

namespace CestWriter

open Php

namespace Text

/-! ## What a cut is -/

theorem cutChars?_eq_some_iff {c : Char} {cs before after : List Char} :
    cutChars? c cs = some (before, after) ↔ c ∉ before ∧ cs = before ++ c :: after := by
  induction cs generalizing before after with
  | nil => simp [cutChars?]
  | cons x xs ih =>
      by_cases hx : x = c
      · cases before with
        | nil => simp [cutChars?, hx]
        | cons b before =>
            simp only [cutChars?, hx, if_true, List.mem_cons, not_or, List.cons_append,
              List.cons.injEq, Option.some.injEq, Prod.mk.injEq, reduceCtorEq, false_and, false_iff]
            exact fun h => h.1.1 h.2.1
      · cases before with
        | nil => simp [cutChars?, hx]
        | cons b before =>
            rw [cutChars?, if_neg hx]
            simp only [Option.map_eq_some_iff, Prod.exists, ih, Prod.mk.injEq, List.cons.injEq,
              List.mem_cons, not_or, List.cons_append]
            constructor
            · rintro ⟨_, _, ⟨hb, rfl⟩, ⟨rfl, rfl⟩, rfl⟩
              exact ⟨⟨Ne.symm hx, hb⟩, rfl, rfl⟩
            · rintro ⟨⟨-, hb⟩, rfl, rfl⟩
              exact ⟨_, _, ⟨hb, rfl⟩, ⟨rfl, rfl⟩, rfl⟩

theorem cut?_eq_some_iff {c : Char} {s before after : String} :
    cut? c s = some (before, after) ↔
      c ∉ before.toList ∧ s.toList = before.toList ++ c :: after.toList := by
  rw [← cutChars?_eq_some_iff, cut?, Option.map_eq_some_iff]
  constructor
  · rintro ⟨⟨b, a⟩, hcut, he⟩
    obtain ⟨rfl, rfl⟩ := Prod.mk.inj he
    simpa using hcut
  · intro hcut
    exact ⟨_, hcut, by simp⟩

theorem cutLast?_eq_some_iff {c : Char} {s before after : String} :
    cutLast? c s = some (before, after) ↔
      c ∉ after.toList ∧ s.toList = before.toList ++ c :: after.toList := by
  have hreverse : s.toList = before.toList ++ c :: after.toList ↔
      s.toList.reverse = after.toList.reverse ++ c :: before.toList.reverse := by
    rw [← List.reverse_inj]
    simp
  rw [hreverse, ← List.mem_reverse, ← cutChars?_eq_some_iff, cutLast?, Option.map_eq_some_iff]
  constructor
  · rintro ⟨⟨a, b⟩, hcut, he⟩
    obtain ⟨rfl, rfl⟩ := Prod.mk.inj he
    simpa using hcut
  · intro hcut
    exact ⟨_, hcut, by simp⟩

theorem cut?_eq_none_iff {c : Char} {s : String} : cut? c s = none ↔ c ∉ s.toList := by
  constructor
  · intro hnone hc
    obtain ⟨before, after, hs, hb⟩ := List.eq_append_cons_of_mem hc
    have hsome : cut? c s = some (String.ofList before, String.ofList after) :=
      cut?_eq_some_iff.mpr ⟨by simpa using hb, by simpa using hs⟩
    simp [hnone] at hsome
  · intro hc
    refine Option.eq_none_iff_forall_ne_some.mpr fun (before, after) hcut => hc ?_
    rw [(cut?_eq_some_iff.mp hcut).2]
    simp

theorem cutLast?_eq_none_iff {c : Char} {s : String} : cutLast? c s = none ↔ c ∉ s.toList := by
  rw [← List.mem_reverse, ← String.toList_ofList (l := s.toList.reverse), ← cut?_eq_none_iff, cut?,
    cutLast?, String.toList_ofList, Option.map_eq_none_iff, Option.map_eq_none_iff]

theorem after?_eq_some_iff {lead s rest : String} : after? lead s = some rest ↔ s = lead ++ rest := by
  constructor
  · intro h
    rw [← String.toList_inj, eq_of_after? h, String.toList_append]
  · rintro rfl
    exact after?_append lead rest

theorem after?_eq_none_iff {lead s : String} : after? lead s = none ↔ ∀ rest, s ≠ lead ++ rest := by
  simp only [Option.eq_none_iff_forall_ne_some, ne_eq, after?_eq_some_iff]

theorem startsWith_eq_true_iff {lead s : String} :
    startsWith lead s = true ↔ ∃ rest, s = lead ++ rest := by
  rw [startsWith_iff]
  constructor
  · rintro ⟨rest, h⟩
    exact ⟨String.ofList rest, by rw [← String.toList_inj, h]; simp⟩
  · rintro ⟨rest, rfl⟩
    exact ⟨rest.toList, String.toList_append⟩

end Text

/-! ## Separators -/

/-- A character that is never written for a reference, neither in a recorded argument nor in prepared
text, and is not escaped. -/
structure Separator (c : Char) : Prop where
  notName : Text.isNameChar c = false
  notWritten : c ∉ ['$', '{', '}', '\\', '\'', ' ', '.', '-', '>', '[', ']']

theorem separator_equals : Separator '=' := ⟨by decide, by decide⟩

theorem separator_at : Separator '@' := ⟨by decide, by decide⟩

namespace Separator

variable {c : Char}

theorem isFree (hc : Separator c) : Prepared.IsFree c := by
  apply Prepared.isFree hc.notName
  intro hm
  apply hc.notWritten
  simp only [List.mem_cons, List.not_mem_nil, or_false] at hm ⊢
  tauto

theorem text_char (hc : Separator c) : Token.text (.char c) = [c] := by
  have h := hc.notWritten
  simp only [List.mem_cons, not_or] at h
  simp [Token.text, escapeChars, h]

/-- A reference that begins before a separator ends before it. -/
theorem beginsReference_iff (hc : Separator c) {cs rest : List Char} :
    BeginsReference (cs ++ c :: rest) ↔ BeginsReference cs := by
  constructor
  · rintro ⟨name, after, hname, he⟩
    have hnot : c ∉ '$' :: '{' :: name ++ ['}'] := by
      have hwritten := hc.notWritten
      have hn : c ∉ name := fun hm => by
        have h := hname.2 c hm
        simp [hc.notName] at h
      simp only [List.mem_cons, List.mem_append, not_or] at hwritten ⊢
      tauto
    rw [List.append_cons ('$' :: '{' :: name)] at he
    rcases List.append_eq_append_iff.mp he with ⟨xs, hx, hr⟩ | ⟨xs, hx, -⟩
    · cases xs with
      | nil => exact ⟨name, [], hname, by simpa using hx.symm⟩
      | cons x xs =>
          obtain ⟨rfl, -⟩ := List.cons.inj hr
          exact absurd (by rw [hx]; simp) hnot
    · exact ⟨name, xs, hname, by simpa using hx⟩
  · rintro ⟨name, after, hname, rfl⟩
    exact ⟨name, after ++ c :: rest, hname, by simp⟩

theorem tokens (hc : Separator c) {before after : List Char} {ts us : List Token}
    (ht : Tokens before ts) (hu : Tokens after us) :
    Tokens (before ++ c :: after) (ts ++ .char c :: us) := by
  induction ht with
  | nil =>
      refine .char (fun h => ?_) hu
      have hnil : BeginsReference ([] ++ c :: after) ↔ BeginsReference [] := hc.beginsReference_iff
      obtain ⟨name, rest, -, he⟩ := hnil.mp h
      simp at he
  | reference hname _ ih => simpa using Tokens.reference hname ih
  | char hnot _ ih => exact .char (fun h => hnot (hc.beginsReference_iff.mp h)) ih

end Separator

theorem Tokens.mem_of_char {cs : List Char} {ts : List Token} (h : Tokens cs ts) {c : Char}
    (hc : Token.char c ∈ ts) : c ∈ cs := by
  induction h with
  | nil => simp at hc
  | reference _ _ ih =>
      have ih := ih (by simpa using hc)
      simp [ih]
  | @char d _ _ _ _ ih =>
      rcases List.mem_cons.mp hc with he | hc
      · obtain rfl := Token.char.inj he
        exact .head _
      · exact .tail _ (ih hc)

theorem Argument.exists_tokens (raw : String) : ∃ ts, Tokens raw.toList ts :=
  ⟨_, (Segment.tokens_iff raw _).mpr rfl⟩

namespace Separator

variable {c : Char} {raw before after : String}

/-- Prepared parts with the separator between them are the prepared whole. -/
theorem toList_text (hc : Separator c) (h : raw.toList = before.toList ++ c :: after.toList) :
    (Argument.text raw).toList =
      (Argument.text before).toList ++ c :: (Argument.text after).toList := by
  obtain ⟨ts, hts⟩ := Argument.exists_tokens before
  obtain ⟨us, hus⟩ := Argument.exists_tokens after
  have hall : Tokens raw.toList (ts ++ .char c :: us) := h ▸ hc.tokens hts hus
  rw [Argument.toList_text hall, Argument.toList_text hts, Argument.toList_text hus]
  simp [hc.text_char]

theorem mem_text_iff (hc : Separator c) : c ∈ (Argument.text raw).toList ↔ c ∈ raw.toList := by
  constructor
  · intro hm
    obtain ⟨ts, hts⟩ := Argument.exists_tokens raw
    rw [Argument.toList_text hts] at hm
    obtain ⟨t, ht, hm⟩ := List.mem_flatMap.mp hm
    have hnamed : Token.Named [t] := fun name hname =>
      hts.named name (List.mem_singleton.mp hname ▸ ht)
    by_cases he : t = .char c
    · exact hts.mem_of_char (he ▸ ht)
    · exact absurd hm (hc.isFree t hnamed he)
  · intro hm
    obtain ⟨xs, ys, hraw⟩ := List.append_of_mem hm
    have hparts : raw.toList = (String.ofList xs).toList ++ c :: (String.ofList ys).toList := by
      simpa using hraw
    rw [hc.toList_text hparts]
    simp

theorem cut?_text (hc : Separator c) (raw : String) : Text.cut? c (Argument.text raw) =
    (Text.cut? c raw).map fun (before, after) => (Argument.text before, Argument.text after) := by
  cases hcut : Text.cut? c raw with
  | none =>
      rw [Text.cut?_eq_none_iff] at hcut
      exact Text.cut?_eq_none_iff.mpr fun hm => hcut (hc.mem_text_iff.mp hm)
  | some parts =>
      obtain ⟨hfirst, hraw⟩ := Text.cut?_eq_some_iff.mp hcut
      exact Text.cut?_eq_some_iff.mpr
        ⟨fun hm => hfirst (hc.mem_text_iff.mp hm), hc.toList_text hraw⟩

theorem cutLast?_text (hc : Separator c) (raw : String) : Text.cutLast? c (Argument.text raw) =
    (Text.cutLast? c raw).map fun (before, after) => (Argument.text before, Argument.text after) := by
  cases hcut : Text.cutLast? c raw with
  | none =>
      rw [Text.cutLast?_eq_none_iff] at hcut
      exact Text.cutLast?_eq_none_iff.mpr fun hm => hcut (hc.mem_text_iff.mp hm)
  | some parts =>
      obtain ⟨hlast, hraw⟩ := Text.cutLast?_eq_some_iff.mp hcut
      exact Text.cutLast?_eq_some_iff.mpr
        ⟨fun hm => hlast (hc.mem_text_iff.mp hm), hc.toList_text hraw⟩

end Separator

/-! ## Plain beginnings -/

/-- Text that stands for itself wherever it stands: no reference begins in it, and nothing in it is
escaped. -/
def Plain (s : String) : Prop :=
  ∀ c ∈ s.toList, c ∉ ['$', '\\', '\'']

instance (s : String) : Decidable (Plain s) :=
  List.decidableBAll _ s.toList

theorem Token.text_ne_nil (t : Token) : t.text ≠ [] := by
  cases t with
  | char c => by_cases hc : c = '\\' ∨ c = '\'' <;> simp [text, escapeChars, hc]
  | reference name => simp [text]

theorem Tokens.lead {lead rest : List Char} {ts : List Token} (hl : ∀ c ∈ lead, c ≠ '$')
    (h : Tokens rest ts) : Tokens (lead ++ rest) (lead.map .char ++ ts) := by
  induction lead with
  | nil => exact h
  | cons c lead ih =>
      obtain ⟨hc, hl⟩ := List.forall_mem_cons.mp hl
      exact .char (fun hb => hc hb.head) (ih hl)

/-- Prepared text that begins plainly was recorded with this beginning. -/
theorem Tokens.exists_lead {cs lead p : List Char} {ts : List Token} (h : Tokens cs ts)
    (hl : ∀ c ∈ lead, c ∉ ['$', '\\', '\'']) (hp : ts.flatMap Token.text = lead ++ p) :
    ∃ rest us, cs = lead ++ rest ∧ Tokens rest us ∧ p = us.flatMap Token.text := by
  induction lead generalizing cs ts with
  | nil => exact ⟨cs, ts, rfl, h, hp.symm⟩
  | cons c lead ih =>
      obtain ⟨hc, hlead⟩ := List.forall_mem_cons.mp hl
      simp only [List.mem_cons, List.not_mem_nil, or_false, not_or] at hc
      cases h with
      | nil => simp at hp
      | reference _ _ =>
          -- A reference is written with a quote first.
          simp only [List.flatMap_cons, Token.text, List.cons_append, List.cons.injEq] at hp
          exact absurd hp.1.symm hc.2.2
      | @char d rest us _ hrest =>
          by_cases hd : d = '\\' ∨ d = '\''
          · simp only [List.flatMap_cons, Token.text, escapeChars, hd, if_true, List.cons_append,
              List.cons.injEq] at hp
            exact absurd hp.1.symm hc.2.1
          · simp only [List.flatMap_cons, Token.text, escapeChars, hd, if_false, List.cons_append,
              List.nil_append, List.cons.injEq] at hp
            obtain ⟨rfl, hp⟩ := hp
            obtain ⟨rest', us', rfl, htokens, rfl⟩ := ih hrest hlead hp
            exact ⟨rest', us', rfl, htokens, rfl⟩

theorem Argument.text_eq_empty_iff {raw : String} : text raw = "" ↔ raw = "" := by
  constructor
  · intro h
    obtain ⟨ts, hts⟩ := exists_tokens raw
    have hempty : ts.flatMap Token.text = [] := by
      rw [← toList_text hts, h]
      rfl
    obtain rfl : ts = [] := by
      refine List.eq_nil_iff_forall_not_mem.mpr fun t ht => ?_
      exact t.text_ne_nil (List.flatMap_eq_nil_iff.mp hempty t ht)
    generalize he : raw.toList = cs at hts
    cases hts
    exact String.toList_eq_nil_iff.mp he
  · rintro rfl
    rfl

namespace Plain

variable {lead p raw : String}

theorem text_append (hl : Plain lead) (rest : String) :
    Argument.text (lead ++ rest) = lead ++ Argument.text rest := by
  obtain ⟨ts, hts⟩ := Argument.exists_tokens rest
  have hall : Tokens (lead ++ rest).toList (lead.toList.map .char ++ ts) := by
    rw [String.toList_append]
    refine hts.lead fun c hc he => hl c hc ?_
    simp [he]
  have hlead : escapeChars lead.toList = lead.toList := by
    refine escapeChars_verbatim fun c hc => ?_
    have h := hl c hc
    simp only [List.mem_cons, List.not_mem_nil, or_false, not_or] at h
    exact ⟨h.2.2, h.2.1⟩
  rw [← String.toList_inj, Argument.toList_text hall, String.toList_append,
    Argument.toList_text hts, List.flatMap_append, flatMap_text_chars, hlead]

theorem text_eq_append_iff (hl : Plain lead) :
    Argument.text raw = lead ++ p ↔ ∃ rest, raw = lead ++ rest ∧ p = Argument.text rest := by
  constructor
  · intro h
    obtain ⟨ts, hts⟩ := Argument.exists_tokens raw
    have hp : ts.flatMap Token.text = lead.toList ++ p.toList := by
      rw [← Argument.toList_text hts, h, String.toList_append]
    obtain ⟨rest, us, hraw, hus, hp⟩ := hts.exists_lead hl hp
    rw [← String.toList_ofList (l := rest)] at hus
    refine ⟨String.ofList rest, ?_, ?_⟩
    · rw [← String.toList_inj, hraw, String.toList_append, String.toList_ofList]
    · rw [← String.toList_inj, hp, Argument.toList_text hus]
  · rintro ⟨rest, rfl, rfl⟩
    exact hl.text_append rest

theorem startsWith_text (hl : Plain lead) (raw : String) :
    Text.startsWith lead (Argument.text raw) = Text.startsWith lead raw := by
  rw [Bool.eq_iff_iff, Text.startsWith_eq_true_iff, Text.startsWith_eq_true_iff]
  simp only [hl.text_eq_append_iff]
  constructor
  · rintro ⟨_, rest, hraw, -⟩
    exact ⟨rest, hraw⟩
  · rintro ⟨rest, hraw⟩
    exact ⟨_, rest, hraw, rfl⟩

theorem text_eq_iff (hp : Plain p) : Argument.text raw = p ↔ raw = p := by
  have h : Argument.text raw = p ++ "" ↔ _ := hp.text_eq_append_iff
  simp only [String.append_empty, eq_comm (a := ""), Argument.text_eq_empty_iff] at h
  rw [h]
  simp

end Plain

/-! ## Quoted parts -/

/-- The quoted text of tokens is one concatenation of closed literals and stored variables, with the
value of the tokens. -/
theorem Token.exists_concatenation {ts : List Token} (h : Named ts) :
    ∃ xs, readConcatenation? (quoteChars (ts.flatMap Token.text)) = some xs ∧
      (∀ name, Operand.slot name ∈ xs → IsName name) ∧
      ∀ ρ, xs.flatMap (Operand.value ρ) = ts.flatMap (Token.value ρ) := by
  refine ⟨trimEnds (operands ts), ?_, fun name hm => ?_, fun ρ => ?_⟩
  · rw [quoteChars_text h]
    exact readConcatenation?_concatenation (trimEnds_ne_nil (by simp [operands]))
  · exact isName_of_mem_operands h (mem_of_mem_trimEnds hm)
  · rw [value_trimEnds, value_operands]

/-- An expression that is worth a recorded argument: one concatenation of closed literals and stored
variables, with the value of the argument where every reference is replaced by the value of its
variable. -/
def Interpolates (expression raw : String) : Prop :=
  ∃ ts xs, Tokens raw.toList ts ∧ readConcatenation? expression.toList = some xs ∧
    (∀ name, Operand.slot name ∈ xs → IsName name) ∧
    ∀ ρ, xs.flatMap (Operand.value ρ) = ts.flatMap (Token.value ρ)

theorem interpolates_text (raw : String) : Interpolates (quote (Argument.text raw)) raw := by
  obtain ⟨ts, hts⟩ := Argument.exists_tokens raw
  obtain ⟨xs, hread, hnames, hvalue⟩ := Token.exists_concatenation hts.named
  refine ⟨ts, xs, hts, ?_, hnames, hvalue⟩
  rw [quote, String.toList_ofList, Argument.toList_text hts, hread]

end CestWriter
