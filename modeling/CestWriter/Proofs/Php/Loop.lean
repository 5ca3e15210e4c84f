import CestWriter.Proofs.Number.Numeral
import CestWriter.Proofs.Php.Expression

/-! # Running the lines of loops

All loops of a method count in `$c`. A loop over a number of times keeps that number in `$times`,
and one over a list keeps the list in `$collection`. -/

namespace CestWriter.Php

/-! ## Lines -/

/-- What `$c` is compared with: `$times`, or the length of `$collection`. -/
inductive Bound
  | times
  | collection
  deriving DecidableEq

/-- A line of a loop, or any other line. -/
inductive Instruction
  | setTimes (n : Int)
  | setCollection (name : String)
  | loop (b : Bound)
  /-- Stores the element at `$c`. -/
  | bind (name : String)
  | close
  | perform (line : String)
  deriving DecidableEq

namespace Instruction

/-- Reads a whole number with an optional minus. -/
def integer? : List Char → Option Int
  | '-' :: ds => if ds ≠ [] ∧ ds.all Char.isDigit then some (-(Number.ofDigits ds : Int)) else none
  | ds => if ds ≠ [] ∧ ds.all Char.isDigit then some (Number.ofDigits ds : Int) else none

/-- Reads a statement up to the semicolon that ends it. -/
def terminated? (cs : List Char) : Option (List Char) :=
  if cs.getLast? = some ';' then some cs.dropLast else none

def timesFront : List Char :=
  ['$', 't', 'i', 'm', 'e', 's', ' ', '=', ' ']

def collectionFront : List Char :=
  ['$', 'c', 'o', 'l', 'l', 'e', 'c', 't', 'i', 'o', 'n', ' ', '=', ' ']

def bindBack : List Char :=
  [' ', '=', ' ', '$', 'c', 'o', 'l', 'l', 'e', 'c', 't', 'i', 'o', 'n', '[', '$', 'c', ']', ';']

def loopFront : List Char :=
  ['f', 'o', 'r', ' ', '(']

def timesLoop : List Char :=
  loopFront ++ "$c = 0; $c < $times; $c++) \x7b".toList

def collectionLoop : List Char :=
  loopFront ++ "$c = 0; $c < count($collection); $c++) \x7b".toList

/-- Reads a line. One that begins like a line of a loop must be such a line. -/
def read? (line : List Char) : Option Instruction :=
  match timesFront.isPrefixOf? line, collectionFront.isPrefixOf? line with
  | some rest, _ => ((terminated? rest).bind integer?).map setTimes
  | none, some rest =>
    match Operand.read? rest with
    | some (.slot name, [';']) => some (setCollection (String.ofList name))
    | _ => none
  | none, none =>
    if line = timesLoop then some (loop .times)
    else if line = collectionLoop then some (loop .collection)
    else if loopFront.isPrefixOf line then none
    else if line = ['\x7d'] then some close
    else match Operand.read? line with
    | some (.slot name, rest) =>
      if rest = bindBack then some (bind (String.ofList name)) else some (perform (String.ofList line))
    | _ => some (perform (String.ofList line))

theorem terminated?_append (cs : List Char) : terminated? (cs ++ [';']) = some cs := by
  simp [terminated?]

theorem integer?_of_isNatural {ds : List Char} (h : Number.IsNatural ds) :
    integer? ds = some (Number.ofDigits ds : Int) := by
  have hall : ds.all Char.isDigit = true := List.all_eq_true.mpr h.isDigit
  unfold integer?
  split
  · next rest =>
      have hminus := h.isDigit '-' (by simp)
      exact absurd hminus (by decide)
  · rw [if_pos ⟨h.ne_nil, hall⟩]

theorem integer?_toString (n : Int) : integer? (toString n).toList = some n := by
  obtain ⟨m, rfl | rfl⟩ := Int.eq_nat_or_neg n
  · rw [Number.toList_toString_natCast, integer?_of_isNatural (Number.isNatural_toDigits m),
      Number.ofDigits_toDigits]
  · by_cases hm : m = 0
    · subst hm
      decide
    · have hdigits := Number.isNatural_toDigits m
      have hall : (Nat.toDigits 10 m).all Char.isDigit = true :=
        List.all_eq_true.mpr hdigits.isDigit
      rw [Number.toList_toString_neg hm, integer?, if_pos ⟨hdigits.ne_nil, hall⟩,
        Number.ofDigits_toDigits]

theorem isPrefixOf?_append (lead rest : List Char) : lead.isPrefixOf? (lead ++ rest) = some rest :=
  List.isPrefixOf?_eq_some_iff_append_eq.mpr rfl

theorem read?_setTimes (n : Int) :
    read? (timesFront ++ (toString n).toList ++ [';']) = some (setTimes n) := by
  rw [List.append_assoc, read?, isPrefixOf?_append]
  simp only
  rw [terminated?_append, Option.bind_some, integer?_toString, Option.map_some]

theorem read?_slot {name : List Char} (h : ∀ c ∈ name, c ≠ '\'' ∧ c ≠ '\\') (rest : List Char) :
    Operand.read? (Operand.slotFront ++ name ++ ['\'', ']'] ++ rest) =
      some (.slot name, rest) := by
  have hread := Operand.read?_text (.slot name) rest
  rwa [Operand.text, escapeChars_verbatim h] at hread

theorem read?_setCollection {name : List Char} (h : ∀ c ∈ name, c ≠ '\'' ∧ c ≠ '\\') :
    read? (collectionFront ++ (Operand.slotFront ++ name ++ ['\'', ']'] ++ [';'])) =
      some (setCollection (String.ofList name)) := by
  have htimes : timesFront.isPrefixOf?
      (collectionFront ++ (Operand.slotFront ++ name ++ ['\'', ']'] ++ [';'])) = none := by
    simp [timesFront, collectionFront, List.isPrefixOf?]
  rw [read?, htimes, isPrefixOf?_append]
  simp only [read?_slot h]

theorem read?_bind {name : List Char} (h : ∀ c ∈ name, c ≠ '\'' ∧ c ≠ '\\') :
    read? (Operand.slotFront ++ name ++ ['\'', ']'] ++ bindBack) =
      some (bind (String.ofList name)) := by
  have hslot := read?_slot h bindBack
  obtain ⟨rest, hrest⟩ : ∃ rest, Operand.slotFront ++ name ++ ['\'', ']'] ++ bindBack =
      '$' :: 't' :: 'h' :: rest := ⟨_, rfl⟩
  rw [hrest] at hslot ⊢
  have hlines : '$' :: 't' :: 'h' :: rest ≠ timesLoop ∧
      '$' :: 't' :: 'h' :: rest ≠ collectionLoop := by
    constructor <;> intro he <;> exact absurd (List.cons.inj he).1 (by decide)
  simp [read?, timesFront, collectionFront, loopFront, List.isPrefixOf?, List.isPrefixOf, hlines,
    hslot]

theorem read?_timesLoop : read? timesLoop = some (loop .times) := by
  have hfront : timesFront.isPrefixOf? timesLoop = none ∧
      collectionFront.isPrefixOf? timesLoop = none := ⟨rfl, rfl⟩
  simp [read?, hfront]

theorem read?_collectionLoop : read? collectionLoop = some (loop .collection) := by
  have hfront : timesFront.isPrefixOf? collectionLoop = none ∧
      collectionFront.isPrefixOf? collectionLoop = none := ⟨rfl, rfl⟩
  have hne : collectionLoop ≠ timesLoop := by decide
  simp [read?, hfront, hne]

theorem read?_close : read? ['\x7d'] = some close := by
  decide

end Instruction

/-! ## Values and states -/

/-- A stored value: a list, or anything else. -/
inductive Value
  | scalar (text : String)
  | list (items : List Value)

/-- The stored variables, the world outside of the program, and the lines performed so far. -/
structure State (σ : Type) where
  vars : String → Value
  outside : σ
  performed : List String

/-- What a performed line does to the variables and to the world outside. -/
abbrev Effect (σ : Type) := String → (String → Value) → σ → (String → Value) × σ

namespace State

variable {σ : Type}

def assign (name : String) (v : Value) (s : State σ) : State σ :=
  { s with vars := fun other => if other = name then v else s.vars other }

def perform (effect : Effect σ) (line : String) (s : State σ) : State σ :=
  let (vars, outside) := effect line s.vars s.outside
  ⟨vars, outside, s.performed ++ [line]⟩

end State

/-! ## The machine -/

structure Locals where
  c : Int
  times : Int
  collection : Value

/-- Whether a loop goes on. Counting what is no list is an error. -/
def Bound.test : Bound → Locals → Option Bool
  | .times, l => some (decide (l.c < l.times))
  | .collection, l =>
    match l.collection with
    | .list items => some (decide (l.c < items.length))
    | .scalar _ => none

/-- A loop that is being run, with the lines from its body on. -/
structure Frame where
  bound : Bound
  body : List Instruction

/-- The lines still to be run, the loops around them from the innermost on, the local variables of
the method, and the state. -/
structure Machine (σ : Type) where
  code : List Instruction
  frames : List Frame
  locals : Locals
  state : State σ

namespace Machine

variable {σ : Type}

/-- The lines after the brace that closes the loop, `depth` loops further out. -/
def skip : Nat → List Instruction → Option (List Instruction)
  | _, [] => none
  | depth, .loop _ :: rest => skip (depth + 1) rest
  | 0, .close :: rest => some rest
  | depth + 1, .close :: rest => skip depth rest
  | depth, _ :: rest => skip depth rest

/-- Tests a loop: goes on with its body, or else with the lines after it. -/
def turn (f : Frame) (after : Option (List Instruction)) (frames : List Frame) (l : Locals)
    (s : State σ) : Option (Machine σ) :=
  match f.bound.test l with
  | none => none
  | some true => some ⟨f.body, f :: frames, l, s⟩
  | some false => after.map fun rest => ⟨rest, frames, l, s⟩

/-- Runs one line. -/
def step (effect : Effect σ) : Machine σ → Option (Machine σ)
  | ⟨[], _, _, _⟩ => none
  | ⟨.setTimes n :: rest, frames, l, s⟩ => some ⟨rest, frames, { l with times := n }, s⟩
  | ⟨.setCollection name :: rest, frames, l, s⟩ =>
    some ⟨rest, frames, { l with collection := s.vars name }, s⟩
  | ⟨.loop b :: rest, frames, l, s⟩ => turn ⟨b, rest⟩ (skip 0 rest) frames { l with c := 0 } s
  | ⟨.bind name :: rest, frames, l, s⟩ =>
    match l.collection with
    | .scalar _ => none
    | .list items => (items[l.c.toNat]?).map fun v => ⟨rest, frames, l, s.assign name v⟩
  | ⟨.close :: _, [], _, _⟩ => none
  | ⟨.close :: rest, f :: frames, l, s⟩ => turn f (some rest) frames { l with c := l.c + 1 } s
  | ⟨.perform line :: rest, frames, l, s⟩ => some ⟨rest, frames, l, s.perform effect line⟩

/-- Runs lines until none is left and no loop is open. -/
def run (effect : Effect σ) : Nat → Machine σ → Option (State σ)
  | 0, _ => none
  | fuel + 1, m =>
    if m.code.isEmpty && m.frames.isEmpty then some m.state
    else (m.step effect).bind (run effect fuel)

/-- The run comes to an end in a state. -/
def Halts (effect : Effect σ) (m : Machine σ) (t : State σ) : Prop :=
  ∃ fuel, m.run effect fuel = some t

variable {effect : Effect σ} {m m' : Machine σ} {t u : State σ}

theorem halts_nil (l : Locals) (s : State σ) : (Machine.mk [] [] l s).Halts effect s :=
  ⟨1, rfl⟩

theorem Halts.of_step (h : m.step effect = some m') (ht : m'.Halts effect t) : m.Halts effect t := by
  obtain ⟨fuel, hrun⟩ := ht
  have hcode : m.code.isEmpty = false := by
    obtain ⟨code, frames, l, s⟩ := m
    cases code with
    | nil => simp [step] at h
    | cons x code => rfl
  exact ⟨fuel + 1, by simp [run, hcode, h, hrun]⟩

theorem run_succ {fuel : Nat} (h : m.run effect fuel = some t) : m.run effect (fuel + 1) = some t := by
  induction fuel generalizing m with
  | zero => simp [run] at h
  | succ fuel ih =>
      rw [run] at h ⊢
      split
      · next hdone => rwa [if_pos hdone] at h
      · next hdone =>
          rw [if_neg hdone] at h
          obtain ⟨m', hm, h⟩ := Option.bind_eq_some_iff.mp h
          rw [hm, Option.bind_some]
          exact ih h

theorem run_mono {fuel fuel' : Nat} (hle : fuel ≤ fuel') (h : m.run effect fuel = some t) :
    m.run effect fuel' = some t := by
  induction hle with
  | refl => exact h
  | step _ ih => exact run_succ ih

/-- More fuel does not change where a run ends. -/
theorem Halts.unique (ht : m.Halts effect t) (hu : m.Halts effect u) : t = u := by
  obtain ⟨fuel, ht⟩ := ht
  obtain ⟨fuel', hu⟩ := hu
  rcases Nat.le_total fuel fuel' with hle | hle
  · exact Option.some.inj ((run_mono hle ht).symm.trans hu)
  · exact Option.some.inj (ht.symm.trans (run_mono hle hu))

end Machine

/-! ## Running text -/

/-- The local variables before the first line; every loop sets those that it reads. -/
def Locals.unset : Locals :=
  ⟨0, 0, .scalar ""⟩

def readLines (lines : List String) : Option (List Instruction) :=
  lines.mapM fun line => Instruction.read? line.toList

theorem readLines_append {lines lines' : List String} {code code' : List Instruction}
    (h : readLines lines = some code) (h' : readLines lines' = some code') :
    readLines (lines ++ lines') = some (code ++ code') := by
  unfold readLines at h h' ⊢
  simp [List.mapM_append, h, h']

/-- Running the lines of a body in order leads from one state to another. -/
def Executes {σ : Type} (effect : Effect σ) (lines : List String) (s t : State σ) : Prop :=
  ∃ code, readLines lines = some code ∧ (Machine.mk code [] .unset s).Halts effect t

theorem Executes.unique {σ : Type} {effect : Effect σ} {lines : List String} {s t u : State σ}
    (ht : Executes effect lines s t) (hu : Executes effect lines s u) : t = u := by
  obtain ⟨code, hcode, ht⟩ := ht
  obtain ⟨code', hcode', hu⟩ := hu
  obtain rfl := Option.some.inj (hcode.symm.trans hcode')
  exact ht.unique hu

end CestWriter.Php
