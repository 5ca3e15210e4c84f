import CestWriter.Proofs.Php.Expression

/-! # What of a line stands outside its literals

A line is read from left to right. A quote opens a literal, and the next quote closes it unless a
backslash stands before it. The outline keeps the code and the two quotes of each literal. -/

namespace CestWriter.Php

inductive Mode
  | code
  | literal
  /-- After a backslash in a literal. -/
  | escaped
  deriving DecidableEq

namespace Mode

def next : Mode → Char → Mode
  | code, c => if c = '\'' then literal else code
  | literal, c => if c = '\'' then code else if c = '\\' then escaped else literal
  | escaped, _ => literal

/-- The mode that a text leads to. -/
def after (m : Mode) (cs : List Char) : Mode :=
  cs.foldl next m

@[simp] theorem after_nil (m : Mode) : m.after [] = m :=
  rfl

@[simp] theorem after_cons (m : Mode) (c : Char) (cs : List Char) :
    m.after (c :: cs) = (m.next c).after cs :=
  rfl

theorem after_append (m : Mode) (xs ys : List Char) :
    m.after (xs ++ ys) = (m.after xs).after ys :=
  List.foldl_append

end Mode

/-- A character belongs to the outline unless it stands inside a literal. -/
def outline : Mode → List Char → List Char
  | _, [] => []
  | m, c :: cs => (if m = .code ∨ m.next c = .code then [c] else []) ++ outline (m.next c) cs

theorem outline_append (m : Mode) (xs ys : List Char) :
    outline m (xs ++ ys) = outline m xs ++ outline (m.after xs) ys := by
  induction xs generalizing m with
  | nil => rfl
  | cons c xs ih => simp [outline, ih]

/-! ## Texts that end outside of literals -/

/-- A text begins and ends outside of literals, and this is its outline. -/
structure Outlined (cs out : List Char) : Prop where
  closed : Mode.code.after cs = .code
  outline_eq : outline .code cs = out

namespace Outlined

theorem nil : Outlined [] [] :=
  ⟨rfl, rfl⟩

theorem append {xs ys out out' : List Char} (hx : Outlined xs out) (hy : Outlined ys out') :
    Outlined (xs ++ ys) (out ++ out') := by
  constructor
  · rw [Mode.after_append, hx.closed, hy.closed]
  · rw [outline_append, hx.outline_eq, hx.closed, hy.outline_eq]

/-- Code without a quote is its own outline. -/
theorem plain {cs : List Char} (h : '\'' ∉ cs) : Outlined cs cs := by
  induction cs with
  | nil => exact nil
  | cons c cs ih =>
      obtain ⟨hc, hcs⟩ := not_or.mp (List.mem_cons.not.mp h)
      have hn : Mode.code.next c = .code := by simp [Mode.next, Ne.symm hc]
      have ih := ih hcs
      exact ⟨by simp [hn, ih.closed], by simp [outline, hn, ih.outline_eq]⟩

/-- Escaped text does not leave the literal and adds nothing to the outline. -/
theorem escapeChars_inside (v : List Char) :
    Mode.literal.after (escapeChars v) = .literal ∧ outline .literal (escapeChars v) = [] := by
  induction v with
  | nil => exact ⟨rfl, rfl⟩
  | cons c v ih =>
      by_cases h : c = '\\' ∨ c = '\''
      · simp [escapeChars, h, outline, Mode.next, ih]
      · obtain ⟨hb, hq⟩ := not_or.mp h
        simp [escapeChars, outline, Mode.next, hb, hq, ih]

theorem literal (v : List Char) : Outlined (Operand.literal v).text ['\'', '\''] := by
  obtain ⟨ha, ho⟩ := escapeChars_inside v
  constructor
  · simp [Operand.text, Mode.after_append, Mode.next, ha]
  · simp [Operand.text, outline_append, outline, Mode.next, ha, ho]

end Outlined

/-- The outline of every slot. -/
def slotOutline : List Char :=
  ['$', 't', 'h', 'i', 's', '-', '>', 'v', 'a', 'r', 's', '[', '\'', '\'', ']']

theorem Outlined.slot (name : List Char) : Outlined (Operand.slot name).text slotOutline := by
  have hfront : Outlined ['$', 't', 'h', 'i', 's', '-', '>', 'v', 'a', 'r', 's', '['] _ :=
    .plain (by decide)
  have hend : Outlined [']'] [']'] := .plain (by decide)
  have h := (hfront.append (.literal name)).append hend
  simpa [Operand.text, Operand.slotFront, slotOutline] using h

/-! ## Items with separators -/

/-- Items with a separator between two of them, one item or more. -/
inductive Joined (separator : List Char) (item : List Char → Prop) : List Char → Prop
  | one {xs} (h : item xs) : Joined separator item xs
  | more {xs ys} (h : item xs) : Joined separator item ys →
      Joined separator item (xs ++ separator ++ ys)

theorem outlined_intersperse {separator : List Char} (hs : '\'' ∉ separator)
    {item : List Char → Prop} {texts : List (List Char)} (hne : texts ≠ [])
    (h : ∀ text ∈ texts, ∃ out, Outlined text out ∧ item out) :
    ∃ out, Outlined (texts.intersperse separator).flatten out ∧ Joined separator item out := by
  induction texts with
  | nil => exact (hne rfl).elim
  | cons text texts ih =>
      obtain ⟨out, htext, hout⟩ := h text (by simp)
      cases texts with
      | nil => exact ⟨out, by simpa using htext, .one hout⟩
      | cons other rest =>
          obtain ⟨outs, hrest, houts⟩ := ih (by simp) fun text hm => h text (by simp [hm])
          have hall := (htext.append (.plain hs)).append hrest
          exact ⟨_, by simpa using hall, .more hout houts⟩

/-! ## Concatenations -/

/-- The outline of a literal or of a slot. -/
def IsOperand (out : List Char) : Prop :=
  out = ['\'', '\''] ∨ out = slotOutline

/-- The outline of operands joined by dots. -/
def IsExpression : List Char → Prop :=
  Joined [' ', '.', ' '] IsOperand

theorem Operand.outlined (x : Operand) : ∃ out, Outlined x.text out ∧ IsOperand out := by
  cases x with
  | literal v => exact ⟨_, .literal v, .inl rfl⟩
  | slot name => exact ⟨_, .slot name, .inr rfl⟩

theorem concatenation_eq_intersperse (xs : List Operand) :
    concatenation xs = ((xs.map Operand.text).intersperse [' ', '.', ' ']).flatten := by
  induction xs with
  | nil => rfl
  | cons x xs ih => cases xs <;> simp_all [concatenation]

theorem outlined_concatenation {xs : List Operand} (hne : xs ≠ []) :
    ∃ out, Outlined (concatenation xs) out ∧ IsExpression out := by
  rw [concatenation_eq_intersperse]
  apply outlined_intersperse (by decide) (by simpa using hne)
  intro text hm
  obtain ⟨x, -, rfl⟩ := List.mem_map.mp hm
  exact x.outlined

end CestWriter.Php
