import CestWriter.Proofs.Php.Outline
import CestWriter.Proofs.Recording.Interpolation

/-! # Prepared text

Prepared text is made of escaped characters and of references. It may be cut at a character that
no reference is written with, and what comes out is prepared again. -/

namespace CestWriter

open Php

/-- Tokens whose names are proper, one after another, give this text. -/
def Prepared (cs : List Char) : Prop :=
  ∃ ts, Token.Named ts ∧ cs = ts.flatMap Token.text

theorem Token.Named.of_append {ts us : List Token} (h : Named (ts ++ us)) : Named ts ∧ Named us :=
  ⟨fun name hm => h name (by simp [hm]), fun name hm => h name (by simp [hm])⟩

namespace Prepared

theorem text (raw : String) : Prepared (Argument.text raw).toList := by
  obtain ⟨ts, hts⟩ : ∃ ts, Tokens raw.toList ts := ⟨_, (Segment.tokens_iff raw _).mpr rfl⟩
  exact ⟨ts, hts.named, Argument.toList_text hts⟩

theorem escapeChars (cs : List Char) : Prepared (Php.escapeChars cs) :=
  ⟨cs.map .char, by simp [Token.Named], (flatMap_text_chars cs).symm⟩

theorem append {xs ys : List Char} (hx : Prepared xs) (hy : Prepared ys) : Prepared (xs ++ ys) := by
  obtain ⟨ts, ht, rfl⟩ := hx
  obtain ⟨us, hu, rfl⟩ := hy
  refine ⟨ts ++ us, fun name hm => ?_, by simp⟩
  rcases List.mem_append.mp hm with hm | hm
  · exact ht name hm
  · exact hu name hm

/-- Prepared text is quoted as a concatenation of closed literals and slots. -/
theorem quoted {p : String} (h : Prepared p.toList) :
    ∃ out, Outlined (quote p).toList out ∧ IsExpression out := by
  obtain ⟨ts, hts, hp⟩ := h
  rw [quote, String.toList_ofList, hp, Token.quoteChars_text hts]
  exact outlined_concatenation (trimEnds_ne_nil (by simp [Token.operands]))

/-! ## Cutting -/

/-- A character that neither an escape nor a reference is written with. -/
def IsFree (c : Char) : Prop :=
  ∀ t : Token, Token.Named [t] → t ≠ .char c → c ∉ t.text

theorem isFree {c : Char} (hn : Text.isNameChar c = false)
    (h : c ∉ ['\\', '\'', ' ', '.', '$', '-', '>', '[', ']']) : IsFree c := by
  intro t ht hne
  cases t with
  | char d =>
      have hd : c ≠ d := fun he => hne (by rw [he])
      have hb : c ≠ '\\' := fun he => h (by simp [he])
      by_cases hs : d = '\\' ∨ d = '\'' <;> simp [Token.text, Php.escapeChars, hs, hd, hb]
  | reference name =>
      have hname : c ∉ name.toList := fun hm => by
        simp [(ht name (by simp)).2 c hm] at hn
      have hword : ∀ d, Text.isNameChar d = true → c ≠ d := by
        rintro d hd rfl
        simp [hd] at hn
      have := hword 't' (by decide)
      have := hword 'h' (by decide)
      have := hword 'i' (by decide)
      have := hword 's' (by decide)
      have := hword 'v' (by decide)
      have := hword 'a' (by decide)
      have := hword 'r' (by decide)
      simp_all [Token.text, Operand.slotFront]

/-- A cut at a free character falls between two tokens. -/
theorem cut {c : Char} (hc : IsFree c) (he : Token.text (.char c) = [c]) {before after : List Char}
    (h : Prepared (before ++ c :: after)) : Prepared before ∧ Prepared after := by
  obtain ⟨ts, hts, hp⟩ := h
  induction ts generalizing before with
  | nil => simp at hp
  | cons t ts ih =>
      obtain ⟨ht, htail⟩ : Token.Named [t] ∧ Token.Named ts :=
            Token.Named.of_append hts
      rw [List.flatMap_cons] at hp
      by_cases htc : t = .char c
      · subst htc
        rw [he, List.singleton_append] at hp
        cases before with
        | nil =>
            obtain rfl := (List.cons.inj hp).2
            exact ⟨⟨[], by simp [Token.Named], rfl⟩, ts, htail, rfl⟩
        | cons b before =>
            obtain ⟨rfl, hp⟩ := List.cons.inj hp
            obtain ⟨hb, ha⟩ := ih htail hp
            have hone : Prepared [b] := ⟨[.char b], ht, by simp [he]⟩
            exact ⟨hone.append hb, ha⟩
      · -- The cut character is not in this token, so the token stands before the cut.
        obtain ⟨rest, rfl⟩ : ∃ rest, before = t.text ++ rest := by
          rcases List.append_eq_append_iff.mp hp with ⟨xs, hx, hr⟩ | ⟨xs, hx, -⟩
          · cases xs with
            | nil => exact ⟨[], by simpa using hx.symm⟩
            | cons x xs =>
                obtain ⟨rfl, -⟩ := List.cons.inj hr
                exact (hc t ht htc (by simp [hx])).elim
          · exact ⟨xs, hx⟩
        rw [List.append_assoc] at hp
        obtain ⟨hb, ha⟩ := ih htail (List.append_cancel_left hp)
        have hone : Prepared t.text := ⟨[t], ht, by simp⟩
        exact ⟨hone.append hb, ha⟩

/-- What follows a plain lead is prepared. -/
theorem after {lead rest : List Char} (hl : ∀ c ∈ lead, c ≠ '\\' ∧ c ≠ '\'')
    (h : Prepared (lead ++ rest)) : Prepared rest := by
  induction lead with
  | nil => exact h
  | cons c lead ih =>
      apply ih fun d hd => hl d (by simp [hd])
      obtain ⟨hb, hq⟩ := hl c (by simp)
      obtain ⟨ts, hts, hp⟩ := h
      cases ts with
      | nil => simp at hp
      | cons t ts =>
          obtain ⟨-, htail⟩ : Token.Named [t] ∧ Token.Named ts :=
            Token.Named.of_append hts
          cases t with
          | char d =>
              by_cases hs : d = '\\' ∨ d = '\''
              · simp [Token.text, Php.escapeChars, hs, hb] at hp
              · simp only [List.cons_append, List.flatMap_cons, Token.text, Php.escapeChars, hs,
                  if_false, List.nil_append] at hp
                exact ⟨ts, htail, (List.cons.inj hp).2⟩
          | reference name => simp [Token.text, hq] at hp

end Prepared

/-! ## Texts that are cut -/

namespace Text

theorem eq_of_cutChars? {c : Char} {cs before after : List Char}
    (h : cutChars? c cs = some (before, after)) : cs = before ++ c :: after := by
  induction cs generalizing before with
  | nil => simp [cutChars?] at h
  | cons x xs ih =>
      unfold cutChars? at h
      split at h
      · rename_i hx
        obtain ⟨rfl, rfl⟩ := Prod.mk.inj (Option.some.inj h)
        rw [hx, List.nil_append]
      · obtain ⟨⟨b, a⟩, hcut, he⟩ := Option.map_eq_some_iff.mp h
        obtain ⟨rfl, rfl⟩ := Prod.mk.inj he
        rw [ih hcut, List.cons_append]

theorem eq_of_cut? {c : Char} {s before after : String} (h : cut? c s = some (before, after)) :
    s.toList = before.toList ++ c :: after.toList := by
  obtain ⟨⟨b, a⟩, hcut, he⟩ := Option.map_eq_some_iff.mp h
  obtain ⟨rfl, rfl⟩ := Prod.mk.inj he
  simpa using eq_of_cutChars? hcut

theorem eq_of_cutLast? {c : Char} {s before after : String}
    (h : cutLast? c s = some (before, after)) : s.toList = before.toList ++ c :: after.toList := by
  obtain ⟨⟨a, b⟩, hcut, he⟩ := Option.map_eq_some_iff.mp h
  obtain ⟨rfl, rfl⟩ := Prod.mk.inj he
  have hr := congrArg List.reverse (eq_of_cutChars? hcut)
  simpa using hr

theorem eq_of_after? {lead s rest : String} (h : after? lead s = some rest) :
    s.toList = lead.toList ++ rest.toList := by
  obtain ⟨r, hr, rfl⟩ := Option.map_eq_some_iff.mp h
  simpa using (List.isPrefixOf?_eq_some_iff_append_eq.mp hr).symm

end Text

end CestWriter
