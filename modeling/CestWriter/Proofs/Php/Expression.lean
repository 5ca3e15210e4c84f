import CestWriter.Php.Quoted
import CestWriter.Php.Slot
import Mathlib.Data.List.Basic

/-! # Concatenations of literals and slots, as PHP reads them

The reader takes characters only. It knows nothing of how the text was put together. -/

namespace CestWriter.Php

/-! ## The body of a literal -/

/-- Reads the body of a single-quoted literal up to the quote that closes it: the value, and what
follows. Two backslashes are one, a backslash before a quote is a quote, and any other backslash
stands for itself. -/
def readBody? : List Char → Option (List Char × List Char)
  | [] => none
  | '\'' :: rest => some ([], rest)
  | '\\' :: '\\' :: rest => (readBody? rest).map fun (value, rest) => ('\\' :: value, rest)
  | '\\' :: '\'' :: rest => (readBody? rest).map fun (value, rest) => ('\'' :: value, rest)
  | c :: rest => (readBody? rest).map fun (value, rest) => (c :: value, rest)

theorem readBody?_plain {c : Char} (hq : c ≠ '\'') (hb : c ≠ '\\') (rest : List Char) :
    readBody? (c :: rest) = (readBody? rest).map fun (value, rest) => (c :: value, rest) := by
  rw [readBody?.eq_5]
  · exact hq
  · intro _ h
    exact (hb h).elim
  · intro _ h
    exact (hb h).elim

/-- Text without quotes and backslashes is written as it is. -/
theorem escapeChars_verbatim {cs : List Char} (h : ∀ c ∈ cs, c ≠ '\'' ∧ c ≠ '\\') :
    escapeChars cs = cs := by
  induction cs with
  | nil => rfl
  | cons c cs ih =>
      have hc := h c (by simp)
      simp [escapeChars, hc, ih fun d hd => h d (by simp [hd])]

/-- Reading undoes escaping, whatever follows the closing quote. -/
theorem readBody?_escapeChars (value rest : List Char) :
    readBody? (escapeChars value ++ '\'' :: rest) = some (value, rest) := by
  induction value with
  | nil => simp [escapeChars, readBody?]
  | cons c value ih =>
      by_cases hb : c = '\\'
      · subst hb
        simp [escapeChars, readBody?, ih]
      · by_cases hq : c = '\''
        · subst hq
          simp [escapeChars, readBody?, ih]
        · simp [escapeChars, hb, hq, readBody?_plain hq hb, ih]

theorem length_lt_of_readBody? {cs value rest : List Char}
    (h : readBody? cs = some (value, rest)) : rest.length < cs.length := by
  fun_induction readBody? cs generalizing value with
  | case1 => simp at h
  | case2 => simp_all
  | case3 _ ih | case4 _ ih =>
      obtain ⟨⟨v, r⟩, hr, he⟩ := Option.map_eq_some_iff.mp h
      obtain ⟨rfl, rfl⟩ := Prod.mk.inj he
      have := ih hr
      simp only [List.length_cons]
      omega
  | case5 _ _ _ _ _ ih =>
      obtain ⟨⟨v, r⟩, hr, he⟩ := Option.map_eq_some_iff.mp h
      obtain ⟨rfl, rfl⟩ := Prod.mk.inj he
      have := ih hr
      simp only [List.length_cons]
      omega

/-! ## Operands -/

/-- What a concatenation joins. -/
inductive Operand
  /-- A closed literal with this value. -/
  | literal (value : List Char)
  /-- Reads the stored variable of this name. -/
  | slot (name : List Char)
  deriving DecidableEq

namespace Operand

/-- The value of an operand where `ρ` gives the values of the variables. -/
def value (ρ : String → String) : Operand → List Char
  | literal v => v
  | slot name => (ρ (String.ofList name)).toList

/-- What stands before the name in the text of a slot. -/
def slotFront : List Char :=
  ['$', 't', 'h', 'i', 's', '-', '>', 'v', 'a', 'r', 's', '[', '\'']

def text : Operand → List Char
  | literal v => '\'' :: escapeChars v ++ ['\'']
  | slot name => slotFront ++ escapeChars name ++ ['\'', ']']

/-- Reads one operand: a literal, or a slot whose name is written as a literal. -/
def read? : List Char → Option (Operand × List Char)
  | '\'' :: rest => (readBody? rest).map fun (v, rest) => (literal v, rest)
  | cs =>
    match (slotFront.isPrefixOf? cs).bind readBody? with
    | some (name, ']' :: rest) => some (slot name, rest)
    | _ => none

theorem read?_text (x : Operand) (rest : List Char) : read? (x.text ++ rest) = some (x, rest) := by
  cases x with
  | literal v =>
      have h := readBody?_escapeChars v rest
      simp only [text, List.cons_append, List.append_assoc, List.nil_append] at h ⊢
      simp [read?, h]
  | slot name =>
      have h := readBody?_escapeChars name (']' :: rest)
      simp only [text, slotFront, List.cons_append, List.append_assoc, List.nil_append] at h ⊢
      simp [read?, slotFront, List.isPrefixOf?, h]

theorem length_lt_of_read? {cs rest : List Char} {x : Operand}
    (h : read? cs = some (x, rest)) : rest.length < cs.length := by
  unfold read? at h
  split at h
  · obtain ⟨⟨v, r⟩, hr, he⟩ := Option.map_eq_some_iff.mp h
    obtain ⟨-, rfl⟩ := Prod.mk.inj he
    have := length_lt_of_readBody? hr
    simp only [List.length_cons]
    omega
  · split at h
    · rename_i cs _ _ name r hb
      obtain ⟨-, rfl⟩ := Prod.mk.inj (Option.some.inj h)
      obtain ⟨body, hp, hr⟩ := Option.bind_eq_some_iff.mp hb
      have hpre := List.isPrefixOf?_eq_some_iff_append_eq.mp hp
      subst hpre
      have := length_lt_of_readBody? hr
      simp only [List.length_cons, List.length_append] at this ⊢
      omega
    · simp at h

end Operand

/-! ## Concatenations -/

/-- Operands with a dot and blanks between them. -/
def concatenation : List Operand → List Char
  | [] => []
  | [x] => x.text
  | x :: y :: rest => x.text ++ [' ', '.', ' '] ++ concatenation (y :: rest)

/-- Reads a whole text as a concatenation of one operand or more. -/
def readConcatenation? (cs : List Char) : Option (List Operand) :=
  match _h : Operand.read? cs with
  | some (x, []) => some [x]
  | some (x, ' ' :: '.' :: ' ' :: rest) => (readConcatenation? rest).map (x :: ·)
  | _ => none
termination_by cs.length
decreasing_by
  have := Operand.length_lt_of_read? _h
  simp only [List.length_cons] at this
  omega

/-- The text of a concatenation is read as that concatenation and as no other. -/
theorem readConcatenation?_concatenation {xs : List Operand} (hne : xs ≠ []) :
    readConcatenation? (concatenation xs) = some xs := by
  induction xs with
  | nil => exact (hne rfl).elim
  | cons x xs ih =>
      cases xs with
      | nil =>
          have h := x.read?_text []
          rw [List.append_nil] at h
          rw [concatenation, readConcatenation?]
          split <;> simp_all
      | cons y rest =>
          have h := x.read?_text ([' ', '.', ' '] ++ concatenation (y :: rest))
          rw [← List.append_assoc] at h
          rw [concatenation, readConcatenation?]
          split <;> simp_all

theorem concatenation_append {xs ys : List Operand} (hx : xs ≠ []) (hy : ys ≠ []) :
    concatenation (xs ++ ys) = concatenation xs ++ [' ', '.', ' '] ++ concatenation ys := by
  induction xs with
  | nil => exact (hx rfl).elim
  | cons x xs ih =>
      cases xs with
      | nil =>
          obtain ⟨y, ys, rfl⟩ := List.exists_cons_of_ne_nil hy
          simp [concatenation]
      | cons z rest =>
          have h := ih (by simp)
          simp only [List.cons_append] at h ⊢
          simp [concatenation, h]

/-! ## Empty literals at the ends -/

/-- Leaves out an empty literal that something follows. -/
def trimFront : List Operand → List Operand
  | .literal [] :: x :: rest => x :: rest
  | xs => xs

/-- Leaves out an empty literal that follows something. -/
def trimBack (xs : List Operand) : List Operand :=
  (trimFront xs.reverse).reverse

/-- Leaves out an empty literal at either end. -/
def trimEnds (xs : List Operand) : List Operand :=
  trimBack (trimFront xs)

/-- No escaped text begins with a quote. -/
theorem head_escapeChars_ne (v : List Char) (rest : List Char) (hv : v ≠ []) :
    ∃ c tail, escapeChars v ++ rest = c :: tail ∧ c ≠ '\'' := by
  cases v with
  | nil => exact (hv rfl).elim
  | cons c v =>
      by_cases h : c = '\\' ∨ c = '\''
      · exact ⟨'\\', c :: (escapeChars v ++ rest), by simp [escapeChars, h], by decide⟩
      · refine ⟨c, escapeChars v ++ rest, by simp [escapeChars, h], ?_⟩
        exact fun hc => h (.inr hc)

theorem dropFront_concatenation (xs : List Operand) :
    dropFront (concatenation xs) = concatenation (trimFront xs) := by
  cases xs with
  | nil => rfl
  | cons x xs =>
      cases x with
      | slot name => cases xs <;> simp [concatenation, trimFront, dropFront, emptyFront,
          Operand.text, Operand.slotFront, List.isPrefixOf?]
      | literal v =>
          cases v with
          | nil =>
              cases xs <;> simp [concatenation, trimFront, dropFront, emptyFront, Operand.text,
                escapeChars, List.isPrefixOf?]
          | cons c v =>
              have key : ∀ rest, dropFront ('\'' :: (escapeChars (c :: v) ++ rest)) =
                  '\'' :: (escapeChars (c :: v) ++ rest) := by
                intro rest
                obtain ⟨d, tail, he, hd⟩ := head_escapeChars_ne (c :: v) rest (by simp)
                rw [he]
                simp [dropFront, emptyFront, List.isPrefixOf?, hd.symm]
              cases xs <;> simpa [concatenation, trimFront, Operand.text] using key _

@[simp] theorem escapeChars_append (v w : List Char) :
    escapeChars (v ++ w) = escapeChars v ++ escapeChars w := by
  induction v with
  | nil => rfl
  | cons c v ih => by_cases h : c = '\\' ∨ c = '\'' <;> simp [escapeChars, h, ih]

theorem dropBack_emptyBack (cs : List Char) : dropBack (cs ++ emptyBack) = cs := by
  simp [dropBack, emptyBack, List.isPrefixOf?]

/-- A literal that is not empty does not end like an empty one: its last character is no quote, or
a backslash stands before that quote. -/
theorem dropBack_literal {v : List Char} (hv : v ≠ []) (cs : List Char) :
    dropBack (cs ++ (Operand.literal v).text) = cs ++ (Operand.literal v).text := by
  obtain ⟨v, c, rfl⟩ := List.eq_nil_or_concat' v |>.resolve_left hv
  by_cases hq : c = '\''
  · subst hq
    simp [dropBack, emptyBack, Operand.text, escapeChars, List.isPrefixOf?]
  · by_cases hb : c = '\\'
    · subst hb
      simp [dropBack, emptyBack, Operand.text, escapeChars, List.isPrefixOf?]
    · simp [dropBack, emptyBack, Operand.text, escapeChars, List.isPrefixOf?, hq, hb, Ne.symm hq]

theorem dropBack_slot (name cs : List Char) :
    dropBack (cs ++ (Operand.slot name).text) = cs ++ (Operand.slot name).text := by
  simp [dropBack, emptyBack, Operand.text, List.isPrefixOf?]

theorem trimBack_concat {xs : List Operand} (hx : xs ≠ []) (x : Operand) :
    trimBack (xs ++ [x]) = if x = .literal [] then xs else xs ++ [x] := by
  obtain ⟨xs, y, rfl⟩ := List.eq_nil_or_concat' xs |>.resolve_left hx
  rcases x with (_ | ⟨c, v⟩) | name <;> simp [trimBack, trimFront]

theorem dropBack_concatenation (xs : List Operand) :
    dropBack (concatenation xs) = concatenation (trimBack xs) := by
  rcases List.eq_nil_or_concat' xs with rfl | ⟨xs, x, rfl⟩
  · rfl
  · by_cases hx : xs = []
    · subst hx
      rcases x with (_ | ⟨c, v⟩) | name
      · simp [concatenation, trimBack, trimFront, dropBack, emptyBack, Operand.text, escapeChars,
          List.isPrefixOf?]
      · simpa [concatenation, trimBack, trimFront] using dropBack_literal (List.cons_ne_nil c v) []
      · simpa [concatenation, trimBack, trimFront] using dropBack_slot name []
    · rw [trimBack_concat hx, concatenation_append hx (by simp)]
      rcases x with (_ | ⟨c, v⟩) | name
      · have h := dropBack_emptyBack (concatenation xs)
        simpa [emptyBack, concatenation, Operand.text, escapeChars] using h
      · rw [concatenation, dropBack_literal (List.cons_ne_nil c v)]
        simp [concatenation_append hx, concatenation]
      · rw [concatenation, dropBack_slot]
        simp [concatenation_append hx, concatenation]

/-! Trimming leaves something, takes away nothing but empty literals, and keeps the value. -/

theorem trimFront_ne_nil {xs : List Operand} (h : xs ≠ []) : trimFront xs ≠ [] := by
  unfold trimFront
  split <;> simp_all

theorem trimEnds_ne_nil {xs : List Operand} (h : xs ≠ []) : trimEnds xs ≠ [] := by
  have hr : (trimFront xs).reverse ≠ [] := by simpa using trimFront_ne_nil h
  simpa [trimEnds, trimBack] using trimFront_ne_nil hr

theorem mem_of_mem_trimFront {xs : List Operand} {x : Operand} (h : x ∈ trimFront xs) : x ∈ xs := by
  unfold trimFront at h
  split at h
  · exact List.mem_cons_of_mem _ h
  · exact h

theorem mem_of_mem_trimEnds {xs : List Operand} {x : Operand} (h : x ∈ trimEnds xs) : x ∈ xs := by
  have h := mem_of_mem_trimFront (List.mem_reverse.mp h)
  exact mem_of_mem_trimFront (List.mem_reverse.mp h)

theorem value_trimFront (ρ : String → String) (xs : List Operand) :
    (trimFront xs).flatMap (Operand.value ρ) = xs.flatMap (Operand.value ρ) := by
  unfold trimFront
  split <;> simp [Operand.value]

theorem value_trimBack (ρ : String → String) (xs : List Operand) :
    (trimBack xs).flatMap (Operand.value ρ) = xs.flatMap (Operand.value ρ) := by
  rcases List.eq_nil_or_concat' xs with rfl | ⟨xs, x, rfl⟩
  · rfl
  · by_cases hx : xs = []
    · subst hx
      simp [trimBack, trimFront]
    · rw [trimBack_concat hx]
      split <;> simp_all [Operand.value]

theorem value_trimEnds (ρ : String → String) (xs : List Operand) :
    (trimEnds xs).flatMap (Operand.value ρ) = xs.flatMap (Operand.value ρ) := by
  rw [trimEnds, value_trimBack, value_trimFront]

end CestWriter.Php
