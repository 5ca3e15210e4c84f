import CestWriter.Proofs.Php.Expression

/-! # Calls that run a script, as PHP reads them

A call gives the script in a literal and, where the script has arguments, an array of them. The
reader takes characters only. -/

namespace CestWriter.Php

/-! ## Arrays -/

/-- Reads the items of an array up to the bracket that closes it, and what follows. -/
def readItems? (cs : List Char) : Option (List Operand × List Char) :=
  match _h : Operand.read? cs with
  | some (x, ']' :: rest) => some ([x], rest)
  | some (x, ',' :: rest) => (readItems? rest).map fun (xs, rest) => (x :: xs, rest)
  | _ => none
termination_by cs.length
decreasing_by
  have := Operand.length_lt_of_read? _h
  simp only [List.length_cons] at this
  omega

/-- The items of an array with commas between them, and the bracket that closes it. -/
def itemsText : List Operand → List Char
  | [] => [']']
  | [x] => x.text ++ [']']
  | x :: y :: rest => x.text ++ ',' :: itemsText (y :: rest)

/-- The text of an array is read as its items and as no others. -/
theorem readItems?_itemsText {xs : List Operand} (hne : xs ≠ []) (rest : List Char) :
    readItems? (itemsText xs ++ rest) = some (xs, rest) := by
  induction xs with
  | nil => exact (hne rfl).elim
  | cons x xs ih =>
      cases xs with
      | nil =>
          have h := x.read?_text (']' :: rest)
          rw [itemsText, List.append_assoc, readItems?]
          split <;> simp_all
      | cons y tail =>
          have h := x.read?_text (',' :: (itemsText (y :: tail) ++ rest))
          rw [itemsText, List.append_assoc, readItems?]
          split <;> simp_all

/-! ## Calls -/

/-- What stands before the script. -/
def callFront : List Char :=
  "$i->executeJS(".toList

/-- The text of a call; without arguments there is no array. -/
def callText (script : List Char) (arguments : List Operand) : List Char :=
  callFront ++ (Operand.literal script).text ++
    (if arguments = [] then [] else [',', ' ', '['] ++ itemsText arguments) ++ [')']

/-- Reads a call: the value of the script, the items of the array if there is one, and what
follows the call. -/
def readCall? (cs : List Char) : Option (List Char × Option (List Operand) × List Char) :=
  match (callFront.isPrefixOf? cs).bind Operand.read? with
  | some (.literal script, ')' :: rest) => some (script, none, rest)
  | some (.literal script, ',' :: ' ' :: '[' :: rest) =>
    match readItems? rest with
    | some (xs, ')' :: rest) => some (script, some xs, rest)
    | _ => none
  | _ => none

/-- The text of a call is read as its script and its arguments. -/
theorem readCall?_callText (script : List Char) (arguments : List Operand) (rest : List Char) :
    readCall? (callText script arguments ++ rest) =
      some (script, if arguments = [] then none else some arguments, rest) := by
  have hfront (tail : List Char) : callFront.isPrefixOf? (callFront ++ tail) = some tail :=
    List.isPrefixOf?_eq_some_iff_append_eq.mpr rfl
  by_cases hne : arguments = []
  · have h := (Operand.literal script).read?_text (')' :: rest)
    simp only [callText, hne, if_true, List.append_nil, List.append_assoc, List.singleton_append,
      readCall?, hfront, Option.bind_some, h]
  · have h := (Operand.literal script).read?_text
      (',' :: ' ' :: '[' :: (itemsText arguments ++ ')' :: rest))
    have hitems := readItems?_itemsText hne (')' :: rest)
    simp only [callText, hne, if_false, List.append_assoc, List.cons_append, List.nil_append,
      readCall?, hfront, Option.bind_some, h, hitems]

end CestWriter.Php
