import CestWriter.Proofs.Php.Expression
import Mathlib.Data.List.Infix

/-! # Text that stands for itself in a literal

A text may stand between quotes without being escaped if the literal neither ends in it nor takes two
of its characters for one. Names of slots are written in this way. -/

namespace CestWriter.Php

/-- No quote, no two backslashes in a row, and no backslash at the end, where it would keep the quote
from closing the literal. -/
structure Verbatim (cs : List Char) : Prop where
  no_quote : '\'' ∉ cs
  no_pair : ¬ ['\\', '\\'] <:+: cs
  no_trail : cs.getLast? ≠ some '\\'

instance (cs : List Char) : Decidable (Verbatim cs) :=
  decidable_of_iff ('\'' ∉ cs ∧ ¬ ['\\', '\\'] <:+: cs ∧ cs.getLast? ≠ some '\\')
    ⟨fun ⟨hq, hp, ht⟩ => ⟨hq, hp, ht⟩, fun ⟨hq, hp, ht⟩ => ⟨hq, hp, ht⟩⟩

theorem verbatim_nil : Verbatim [] := by
  decide

/-- A backslash stands before a character that is no backslash. -/
theorem verbatim_cons_iff {c : Char} {cs : List Char} : Verbatim (c :: cs) ↔
    c ≠ '\'' ∧ (c = '\\' → ∃ d, cs.head? = some d ∧ d ≠ '\\') ∧ Verbatim cs := by
  constructor
  · rintro ⟨hquote, hpair, htrail⟩
    obtain ⟨hc, hcs⟩ := not_or.mp (List.mem_cons.not.mp hquote)
    have hrest : ¬ ['\\', '\\'] <:+: cs := fun h => hpair (List.infix_cons h)
    refine ⟨Ne.symm hc, ?_, hcs, hrest, ?_⟩
    · rintro rfl
      cases cs with
      | nil => simp at htrail
      | cons d cs =>
          refine ⟨d, rfl, ?_⟩
          rintro rfl
          exact hpair (List.prefix_append ['\\', '\\'] cs).isInfix
    · cases cs with
      | nil => simp
      | cons d cs => rwa [List.getLast?_cons_cons] at htrail
  · rintro ⟨hc, hbackslash, hquote, hpair, htrail⟩
    refine ⟨List.not_mem_cons_of_ne_of_not_mem hc.symm hquote, fun h => ?_, ?_⟩
    · rcases List.infix_cons_iff.mp h with hprefix | h
      · obtain ⟨rfl, hcs⟩ := List.cons_prefix_cons.mp hprefix
        obtain ⟨d, hd, hne⟩ := hbackslash rfl
        cases cs with
        | nil => simp at hd
        | cons e cs =>
            obtain rfl := Option.some.inj hd
            exact hne (List.cons_prefix_cons.mp hcs).1.symm
      · exact hpair h
    · cases cs with
      | nil =>
          intro h
          obtain rfl := Option.some.inj h
          obtain ⟨d, hd, -⟩ := hbackslash rfl
          simp at hd
      | cons d cs => rwa [List.getLast?_cons_cons]

/-! ## Reading the body of a literal -/

/-- A character that opens no escape stands for itself. -/
theorem readBody?_cons {c : Char} {cs : List Char} (hc : c ≠ '\'')
    (hescape : c = '\\' → ∀ d ∈ cs.head?, d ≠ '\\' ∧ d ≠ '\'') :
    readBody? (c :: cs) = (readBody? cs).map fun (value, rest) => (c :: value, rest) := by
  rw [readBody?.eq_5]
  · exact hc
  · rintro rest rfl rfl
    exact (hescape rfl '\\' rfl).1 rfl
  · rintro rest rfl rfl
    exact (hescape rfl '\'' rfl).2 rfl

theorem readBody?_of_verbatim {cs : List Char} (h : Verbatim cs) (rest : List Char) :
    readBody? (cs ++ '\'' :: rest) = some (cs, rest) := by
  induction cs with
  | nil => rfl
  | cons c cs ih =>
      obtain ⟨hc, hbackslash, hcs⟩ := verbatim_cons_iff.mp h
      rw [List.cons_append, readBody?_cons hc, ih hcs]
      · rfl
      · intro he d hd
        obtain ⟨e, hhead, hne⟩ := hbackslash he
        have hquote := hcs.no_quote
        cases cs with
        | nil => simp at hhead
        | cons e' cs =>
            obtain rfl := Option.some.inj hhead
            obtain rfl := Option.some.inj hd
            exact ⟨hne, fun he => hquote (he ▸ .head _)⟩

theorem replicate_append_cons {α : Type} (k : ℕ) (a : α) (as : List α) :
    List.replicate k a ++ a :: as = a :: (List.replicate k a ++ as) := by
  rw [← List.cons_append, ← List.replicate_succ, List.replicate_succ', List.append_assoc]
  rfl

/-- A text that is read as itself with some backslashes before it is read as it stands. A pair of
backslashes is read as one, so what follows the pair would have to be read with one more before it. -/
theorem verbatim_of_readBody? {cs rest tail : List Char} {k : ℕ}
    (h : readBody? (cs ++ '\'' :: rest) = some (List.replicate k '\\' ++ cs, tail)) :
    k = 0 ∧ Verbatim cs := by
  induction cs using readBody?.induct generalizing k with
  | case1 =>
      obtain ⟨hvalue, -⟩ := Prod.mk.inj (Option.some.inj h)
      exact ⟨by simpa using hvalue.symm, verbatim_nil⟩
  | case2 cs =>
      obtain ⟨hvalue, -⟩ := Prod.mk.inj (Option.some.inj h)
      simp at hvalue
  | case3 cs ih =>
      obtain ⟨⟨value, after⟩, hread, he⟩ := Option.map_eq_some_iff.mp h
      obtain ⟨hvalue, rfl⟩ := Prod.mk.inj he
      rw [replicate_append_cons, replicate_append_cons] at hvalue
      obtain rfl : value = List.replicate (k + 1) '\\' ++ cs := (List.cons.inj hvalue).2
      exact absurd (ih hread).1 (Nat.succ_ne_zero k)
  | case4 cs ih =>
      obtain ⟨⟨value, after⟩, -, he⟩ := Option.map_eq_some_iff.mp h
      obtain ⟨hvalue, -⟩ := Prod.mk.inj he
      rw [replicate_append_cons] at hvalue
      exact absurd (List.cons.inj hvalue).1 (by decide)
  | case5 c cs hquote hpair hescaped ih =>
      by_cases htrail : c = '\\' ∧ cs = []
      · -- The backslash takes the quote that should close the literal.
        obtain ⟨rfl, rfl⟩ := htrail
        obtain ⟨⟨value, after⟩, -, he⟩ := Option.map_eq_some_iff.mp h
        obtain ⟨hvalue, -⟩ := Prod.mk.inj he
        rw [replicate_append_cons] at hvalue
        exact absurd (List.cons.inj hvalue).1 (by decide)
      · have hbackslash : c = '\\' → ∃ d, cs.head? = some d ∧ d ≠ '\\' ∧ d ≠ '\'' := by
          rintro rfl
          cases cs with
          | nil => exact (htrail ⟨rfl, rfl⟩).elim
          | cons d cs =>
              exact ⟨d, rfl, fun hd => hpair cs rfl (hd ▸ rfl), fun hd => hescaped cs rfl (hd ▸ rfl)⟩
        rw [List.cons_append, readBody?_cons hquote] at h
        · obtain ⟨⟨value, after⟩, hread, he⟩ := Option.map_eq_some_iff.mp h
          obtain ⟨hvalue, rfl⟩ := Prod.mk.inj he
          obtain rfl : value = List.replicate k '\\' ++ cs := by
            cases k with
            | zero => exact (List.cons.inj hvalue).2
            | succ k =>
                obtain ⟨rfl, -⟩ := List.cons.inj hvalue
                rw [replicate_append_cons] at hvalue
                exact (List.cons.inj hvalue).2
          obtain ⟨hk, hcs⟩ := ih hread
          refine ⟨hk, verbatim_cons_iff.mpr ⟨hquote, fun hc => ?_, hcs⟩⟩
          obtain ⟨d, hd, hne, -⟩ := hbackslash hc
          exact ⟨d, hd, hne⟩
        · intro hc d hd
          obtain ⟨e, he, hne⟩ := hbackslash hc
          cases cs with
          | nil => simp at he
          | cons e' cs =>
              obtain rfl := Option.some.inj he
              obtain rfl := Option.some.inj hd
              exact hne

/-! ## Slots -/

/-- A slot is read under the name it was written with just where that name is verbatim, and then it
ends where it was written to end. -/
theorem read?_slot_iff {name trail tail : List Char} :
    Operand.read? (Operand.slotFront ++ name ++ ['\'', ']'] ++ trail) = some (.slot name, tail) ↔
      Verbatim name ∧ tail = trail := by
  have hfront : Operand.slotFront.isPrefixOf? (Operand.slotFront ++ name ++ ['\'', ']'] ++ trail) =
      some (name ++ '\'' :: ']' :: trail) :=
    List.isPrefixOf?_eq_some_iff_append_eq.mpr (by simp)
  have hslot : ∀ rest, Operand.slotFront ++ name ++ ['\'', ']'] ++ trail = '\'' :: rest → False := by
    intro rest he
    simp [Operand.slotFront] at he
  rw [Operand.read?.eq_2 _ hslot, hfront, Option.bind_some]
  constructor
  · intro h
    split at h
    · rename_i other rest hbody
      obtain ⟨hname, rfl⟩ := Prod.mk.inj (Option.some.inj h)
      obtain rfl := Operand.slot.inj hname
      have hverbatim : Verbatim other := (verbatim_of_readBody? (k := 0) hbody).2
      rw [readBody?_of_verbatim hverbatim] at hbody
      obtain ⟨-, htail⟩ := Prod.mk.inj (Option.some.inj hbody)
      exact ⟨hverbatim, (List.cons.inj htail).2.symm⟩
    · simp at h
  · rintro ⟨hverbatim, rfl⟩
    rw [readBody?_of_verbatim hverbatim]
    rfl

/-- One backslash and two of them in a row name the same slot. -/
example : Operand.read? (Operand.slotFront ++ ['a', '\\', 'b', '\'', ']']) =
    Operand.read? (Operand.slotFront ++ ['a', '\\', '\\', 'b', '\'', ']']) := by
  decide

end CestWriter.Php
