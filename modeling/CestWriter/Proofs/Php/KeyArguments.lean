import CestWriter.Proofs.Php.Outline
import CestWriter.Proofs.Text.Name
import Mathlib.Data.List.TakeWhile

/-! # The arguments of a key sequence, as PHP reads them

A special key is a constant of the class `WebDriverKeys`. The reader takes characters only, and takes
whatever name characters follow the class for the name of the constant. -/

namespace CestWriter.Php

open Text (isNameChar)

inductive KeyArgument
  | operand (x : Operand)
  /-- A constant of the special keys. -/
  | constant (name : List Char)
  deriving DecidableEq

/-- What stands before the name of a special key. -/
def keyFront : List Char :=
  ['W', 'e', 'b', 'D', 'r', 'i', 'v', 'e', 'r', 'K', 'e', 'y', 's', ':', ':']

namespace KeyArgument

/-- The value of an argument where `ρ` gives the values of the variables and `κ` those of the
constants. -/
def value (ρ κ : String → String) : KeyArgument → List Char
  | operand x => x.value ρ
  | constant name => (κ (String.ofList name)).toList

def text : KeyArgument → List Char
  | operand x => x.text
  | constant name => keyFront ++ name

/-- The name of a constant has no other characters than names have. -/
def IsNamed (x : KeyArgument) : Prop :=
  ∀ name, x = constant name → ∀ c ∈ name, isNameChar c = true

/-- Reads one argument. -/
def read? (cs : List Char) : Option (KeyArgument × List Char) :=
  match keyFront.isPrefixOf? cs with
  | some rest => some (constant (rest.takeWhile isNameChar), rest.dropWhile isNameChar)
  | none => (Operand.read? cs).map fun (x, rest) => (operand x, rest)

theorem keyFront_operand (x : Operand) (rest : List Char) :
    keyFront.isPrefixOf? (x.text ++ rest) = none := by
  cases x <;> simp [keyFront, Operand.text, Operand.slotFront, List.isPrefixOf?]

theorem read?_text {x : KeyArgument} (hx : x.IsNamed) (rest : List Char)
    (hrest : ∀ c ∈ rest.head?, isNameChar c = false) :
    read? (x.text ++ rest) = some (x, rest) := by
  cases x with
  | operand x => rw [text, read?, keyFront_operand, x.read?_text, Option.map_some]
  | constant name =>
      have hfront : keyFront.isPrefixOf? (keyFront ++ name ++ rest) = some (name ++ rest) :=
        List.isPrefixOf?_eq_some_iff_append_eq.mpr (List.append_assoc ..).symm
      have hname := hx name rfl
      simp only [text, read?, hfront, Text.takeWhile_run hname hrest,
        Text.dropWhile_run hname hrest]

theorem length_lt_of_read? {cs rest : List Char} {x : KeyArgument} (h : read? cs = some (x, rest)) :
    rest.length < cs.length := by
  unfold read? at h
  split at h
  · rename_i tail htail
    obtain ⟨-, rfl⟩ := Prod.mk.inj (Option.some.inj h)
    obtain rfl := List.isPrefixOf?_eq_some_iff_append_eq.mp htail
    have hdrop := (List.dropWhile_sublist (l := tail) isNameChar).length_le
    have hfront : keyFront.length = 15 := by decide
    rw [List.length_append]
    omega
  · obtain ⟨⟨y, r⟩, hr, he⟩ := Option.map_eq_some_iff.mp h
    obtain ⟨-, rfl⟩ := Prod.mk.inj he
    exact Operand.length_lt_of_read? hr

end KeyArgument

/-! ## Lists of arguments -/

/-- Arguments with a comma and a blank between them. -/
def argumentList (xs : List KeyArgument) : List Char :=
  ((xs.map KeyArgument.text).intersperse [',', ' ']).flatten

theorem argumentList_singleton (x : KeyArgument) : argumentList [x] = x.text := by
  simp [argumentList]

theorem argumentList_cons (x y : KeyArgument) (rest : List KeyArgument) :
    argumentList (x :: y :: rest) = x.text ++ ',' :: ' ' :: argumentList (y :: rest) := by
  simp [argumentList]

/-- Reads a whole text as a list of one argument or more. -/
def readArguments? (cs : List Char) : Option (List KeyArgument) :=
  match _h : KeyArgument.read? cs with
  | some (x, []) => some [x]
  | some (x, ',' :: ' ' :: rest) => (readArguments? rest).map (x :: ·)
  | _ => none
termination_by cs.length
decreasing_by
  have := KeyArgument.length_lt_of_read? _h
  simp only [List.length_cons] at this
  omega

/-- The text of a list of arguments is read as that list and as no other. -/
theorem readArguments?_argumentList {xs : List KeyArgument} (hne : xs ≠ [])
    (hxs : ∀ x ∈ xs, x.IsNamed) : readArguments? (argumentList xs) = some xs := by
  induction xs with
  | nil => exact (hne rfl).elim
  | cons x xs ih =>
      obtain ⟨hx, hxs⟩ := List.forall_mem_cons.mp hxs
      cases xs with
      | nil =>
          have h := KeyArgument.read?_text hx [] (by simp)
          rw [List.append_nil] at h
          rw [argumentList_singleton, readArguments?]
          split <;> simp_all
      | cons y rest =>
          have hcomma : isNameChar ',' = false := by decide
          have h := KeyArgument.read?_text hx (',' :: ' ' :: argumentList (y :: rest))
            (by simpa using hcomma)
          rw [argumentList_cons, readArguments?]
          split <;> simp_all

/-! ## Special keys in code -/

/-- The names that follow the class of the special keys in a code, in order. -/
def keyConstants : List Char → List (List Char)
  | [] => []
  | c :: cs =>
    ((keyFront.isPrefixOf? (c :: cs)).map (List.takeWhile isNameChar)).toList ++ keyConstants cs

theorem keyConstants_of_not_mem {cs : List Char} (h : ':' ∉ cs) : keyConstants cs = [] := by
  induction cs with
  | nil => rfl
  | cons c cs ih =>
      have hnone : keyFront.isPrefixOf? (c :: cs) = none := by
        refine Option.eq_none_iff_forall_ne_some.mpr fun rest hrest => h ?_
        rw [← List.isPrefixOf?_eq_some_iff_append_eq.mp hrest]
        exact List.mem_append_left _ (by decide)
      rw [keyConstants, hnone, ih fun hm => h (List.mem_cons_of_mem _ hm)]
      rfl

theorem keyFront_append {c : Char} (hfront : c ∉ keyFront) (hname : isNameChar c = false)
    (xs ys : List Char) : (keyFront.isPrefixOf? (xs ++ c :: ys)).map (List.takeWhile isNameChar) =
      (keyFront.isPrefixOf? xs).map (List.takeWhile isNameChar) := by
  cases hxs : keyFront.isPrefixOf? xs with
  | some rest =>
      obtain rfl := List.isPrefixOf?_eq_some_iff_append_eq.mp hxs
      have hall : keyFront.isPrefixOf? (keyFront ++ rest ++ c :: ys) = some (rest ++ c :: ys) :=
        List.isPrefixOf?_eq_some_iff_append_eq.mpr (List.append_assoc ..).symm
      rw [hall, Option.map_some, Option.map_some, Text.takeWhile_append_cons hname]
  | none =>
      -- The class cannot begin in `xs` and end behind it, since it would go over `c`.
      have hnone : keyFront.isPrefixOf? (xs ++ c :: ys) = none := by
        refine Option.eq_none_iff_forall_ne_some.mpr fun rest hrest => ?_
        have happ := List.isPrefixOf?_eq_some_iff_append_eq.mp hrest
        rcases List.append_eq_append_iff.mp happ with ⟨tail, hbefore, -⟩ | ⟨tail, hkey, htail⟩
        · have := List.isPrefixOf?_eq_some_iff_append_eq.mpr hbefore.symm
          simp_all
        · cases tail with
          | nil =>
              have := List.isPrefixOf?_eq_some_iff_append_eq.mpr hkey.symm
              simp_all
          | cons d tail =>
              obtain ⟨rfl, -⟩ := List.cons.inj htail
              exact hfront (hkey ▸ List.mem_append_right _ (.head _))
      rw [hnone]

/-- No name reaches across a character that belongs neither to a name nor to the class. -/
theorem keyConstants_append {c : Char} (hfront : c ∉ keyFront) (hname : isNameChar c = false)
    (xs ys : List Char) : keyConstants (xs ++ c :: ys) = keyConstants xs ++ keyConstants ys := by
  induction xs with
  | nil =>
      have hc := keyFront_append hfront hname [] ys
      rw [List.nil_append] at hc
      rw [List.nil_append, keyConstants, keyConstants, hc]
      rfl
  | cons x xs ih =>
      have hx := keyFront_append hfront hname (x :: xs) ys
      rw [List.cons_append] at hx ⊢
      rw [keyConstants, keyConstants, hx, ih, List.append_assoc]

theorem keyConstants_constant {name : List Char} (h : ∀ c ∈ name, isNameChar c = true) :
    keyConstants (keyFront ++ name) = [name] := by
  have htake : name.takeWhile isNameChar = name := List.takeWhile_eq_self_iff.mpr h
  have hrest : keyConstants name = [] := by
    refine keyConstants_of_not_mem fun hm => ?_
    have := h _ hm
    contradiction
  simp [keyFront, keyConstants, List.isPrefixOf?, htake, hrest]

/-! ## Special keys of a list of arguments -/

namespace KeyArgument

/-- The special key that an argument is. -/
def constant? : KeyArgument → Option (List Char)
  | operand _ => none
  | constant name => some name

theorem outlined {x : KeyArgument} (hx : x.IsNamed) :
    ∃ out, Outlined x.text out ∧ keyConstants out = x.constant?.toList := by
  cases x with
  | operand x =>
      obtain ⟨out, hout, hx⟩ := x.outlined
      refine ⟨out, hout, keyConstants_of_not_mem ?_⟩
      rcases hx with rfl | rfl <;> decide
  | constant name =>
      have hname := hx name rfl
      refine ⟨keyFront ++ name, .plain fun hm => ?_, keyConstants_constant hname⟩
      rcases List.mem_append.mp hm with hm | hm
      · exact absurd hm (by decide)
      · exact absurd (hname _ hm) (by decide)

end KeyArgument

/-- The special keys in the code of an argument list are those among its arguments. -/
theorem outlined_argumentList {xs : List KeyArgument} (hxs : ∀ x ∈ xs, x.IsNamed) :
    ∃ out, Outlined (argumentList xs) out ∧
      keyConstants out = xs.filterMap KeyArgument.constant? := by
  induction xs with
  | nil => exact ⟨[], .nil, rfl⟩
  | cons x xs ih =>
      obtain ⟨hx, hxs⟩ := List.forall_mem_cons.mp hxs
      obtain ⟨out, hout, hkeys⟩ := KeyArgument.outlined hx
      obtain ⟨outs, houts, hall⟩ := ih hxs
      cases xs with
      | nil =>
          refine ⟨out, by rwa [argumentList_singleton], ?_⟩
          cases hc : x.constant? <;> simp [hkeys, hc]
      | cons y rest =>
          have hcomma : Outlined [',', ' '] [',', ' '] := .plain (by decide)
          refine ⟨out ++ ',' :: ([] ++ ' ' :: outs), ?_, ?_⟩
          · simpa [argumentList_cons] using hout.append (hcomma.append houts)
          · rw [keyConstants_append (by decide) (by decide),
              keyConstants_append (by decide) (by decide), hkeys, hall]
            cases hc : x.constant? <;> simp [hc, keyConstants]

end CestWriter.Php
