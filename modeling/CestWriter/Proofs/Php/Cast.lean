import CestWriter.Proofs.Php.Loop
import Mathlib.Algebra.Group.Nat.Defs

/-! # Concatenations with casts, as PHP reads them

A cast binds tighter than the dot of a concatenation: it converts the operand that it stands before and
nothing else. -/

namespace CestWriter.Php

/-! ## Terms -/

/-- A side of a dot. -/
inductive Term
  | plain (x : Operand)
  /-- An operand after a cast to an integer. -/
  | int (x : Operand)
  deriving DecidableEq

def intFront : List Char :=
  ['(', 'i', 'n', 't', ')', ' ']

namespace Term

def text : Term → List Char
  | plain x => x.text
  | int x => intFront ++ x.text

def read? (cs : List Char) : Option (Term × List Char) :=
  match intFront.isPrefixOf? cs with
  | some rest => (Operand.read? rest).map fun (x, rest) => (int x, rest)
  | none => (Operand.read? cs).map fun (x, rest) => (plain x, rest)

theorem read?_text (t : Term) (rest : List Char) : read? (t.text ++ rest) = some (t, rest) := by
  cases t with
  | plain x =>
      have hfront : intFront.isPrefixOf? (x.text ++ rest) = none := by
        cases x <;> simp [Operand.text, Operand.slotFront, intFront, List.isPrefixOf?]
      rw [text, read?, hfront]
      simp only [Operand.read?_text, Option.map_some]
  | int x =>
      rw [text, List.append_assoc, read?, Instruction.isPrefixOf?_append]
      simp only [Operand.read?_text, Option.map_some]

theorem length_lt_of_read? {cs rest : List Char} {t : Term} (h : read? cs = some (t, rest)) :
    rest.length < cs.length := by
  unfold read? at h
  split at h
  · next after hfront =>
      obtain ⟨⟨x, r⟩, hr, he⟩ := Option.map_eq_some_iff.mp h
      obtain ⟨-, rfl⟩ := Prod.mk.inj he
      have hcs := List.isPrefixOf?_eq_some_iff_append_eq.mp hfront
      have hlt := Operand.length_lt_of_read? hr
      rw [← hcs, List.length_append]
      omega
  · obtain ⟨⟨x, r⟩, hr, he⟩ := Option.map_eq_some_iff.mp h
    obtain ⟨-, rfl⟩ := Prod.mk.inj he
    exact Operand.length_lt_of_read? hr

/-! ## Terms with dots between them -/

def joinedText : List Term → List Char
  | [] => []
  | [t] => t.text
  | t :: u :: rest => t.text ++ [' ', '.', ' '] ++ joinedText (u :: rest)

/-- Reads a whole text as one term or more with dots between them. -/
def readJoined? (cs : List Char) : Option (List Term) :=
  match _h : read? cs with
  | some (t, []) => some [t]
  | some (t, ' ' :: '.' :: ' ' :: rest) => (readJoined? rest).map (t :: ·)
  | _ => none
termination_by cs.length
decreasing_by
  have := length_lt_of_read? _h
  simp only [List.length_cons] at this
  omega

theorem readJoined?_joinedText {ts : List Term} (hne : ts ≠ []) :
    readJoined? (joinedText ts) = some ts := by
  induction ts with
  | nil => exact absurd rfl hne
  | cons t ts ih =>
      cases ts with
      | nil =>
          have h := t.read?_text []
          rw [List.append_nil] at h
          rw [joinedText, readJoined?]
          split <;> simp_all
      | cons u rest =>
          have h := t.read?_text ([' ', '.', ' '] ++ joinedText (u :: rest))
          rw [← List.append_assoc] at h
          rw [joinedText, readJoined?]
          split <;> simp_all

theorem joinedText_plain (xs : List Operand) : joinedText (xs.map plain) = concatenation xs := by
  induction xs with
  | nil => rfl
  | cons x xs ih =>
      cases xs with
      | nil => rfl
      | cons y rest =>
          rw [List.map_cons, List.map_cons] at *
          rw [joinedText, ih]
          rfl

/-- A cast before a concatenation is a cast of its first operand. -/
theorem joinedText_int_cons (x : Operand) (xs : List Operand) :
    joinedText (int x :: xs.map plain) = intFront ++ concatenation (x :: xs) := by
  cases xs with
  | nil => rfl
  | cons y rest =>
      have htail := joinedText_plain (y :: rest)
      rw [List.map_cons] at htail ⊢
      rw [joinedText, htail, concatenation, text]
      simp

end Term

/-! ## What is assigned -/

/-- An expression that is assigned: a whole numeral, or terms with dots between them. -/
inductive Assigned
  | numeral (n : Int)
  | joined (ts : List Term)
  deriving DecidableEq

namespace Assigned

def read? (cs : List Char) : Option Assigned :=
  match Instruction.integer? cs with
  | some n => some (numeral n)
  | none => (Term.readJoined? cs).map joined

/-- The integer that the expression is worth where `ρ` gives the values of the variables and `toInt`
casts a text; none if it is worth something else. The minus of a numeral is an operator, and the
digits after it are no integer beyond 64 bits. A text is what dots give, and an operand without a
cast. -/
def int? (toInt : List Char → Int) (ρ : String → String) : Assigned → Option Int
  | numeral n => if n.natAbs < 2 ^ 63 then some n else none
  | joined [.int x] => some (toInt (x.value ρ))
  | joined _ => none

theorem exists_int?_numeral {toInt : List Char → Int} {ρ : String → String} (n : Int) :
    (∃ m, int? toInt ρ (numeral n) = some m) ↔ n.natAbs < 2 ^ 63 := by
  simp [int?]

/-- A cast before a concatenation makes an integer of it where there is no dot. -/
theorem int?_cast (toInt : List Char → Int) (ρ : String → String) (x : Operand)
    (xs : List Operand) : int? toInt ρ (joined (.int x :: xs.map .plain)) =
      if xs = [] then some (toInt (x.value ρ)) else none := by
  cases xs <;> rfl

theorem read?_toString (n : Int) : read? (toString n).toList = some (numeral n) := by
  rw [read?, Instruction.integer?_toString]

theorem read?_cast (x : Operand) (xs : List Operand) :
    read? (intFront ++ concatenation (x :: xs)) = some (joined (.int x :: xs.map .plain)) := by
  have hnumeral : Instruction.integer? (intFront ++ concatenation (x :: xs)) = none := by
    rw [intFront, List.cons_append, Instruction.integer?]
    · exact if_neg fun h => absurd (List.all_eq_true.mp h.2 '(' (.head _)) (by decide)
    · intro ds h
      exact absurd (List.cons.inj h).1 (by decide)
  rw [read?, hnumeral]
  simp only
  rw [← Term.joinedText_int_cons, Term.readJoined?_joinedText (List.cons_ne_nil _ _),
    Option.map_some]

end Assigned

end CestWriter.Php
