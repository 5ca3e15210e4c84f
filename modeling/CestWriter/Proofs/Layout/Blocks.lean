import CestWriter.Layout.Level
import CestWriter.Text.Cut
import Mathlib.Data.List.Basic

/-! # Blocks, as the braces of the lines have them

A line that starts with a closing brace closes a block before it is counted, and a line that ends
with an opening brace opens one after it. A comment does neither and may stand at any level. -/

namespace CestWriter

/-- The level of a line and what it does to the blocks around it. -/
structure Mark where
  level : Nat
  closes : Bool
  opens : Bool
  deriving DecidableEq

/-- The mark of a line; a comment has none. -/
def Line.mark? (l : Line) : Option Mark :=
  if Text.startsWith "//" l.statement then none
  else some ⟨l.level, l.statement.toList.head? == some '}', l.statement.toList.getLast? == some '{'⟩

theorem Line.mark?_comment {l : Line} (h : Text.startsWith "//" l.statement = true) :
    l.mark? = none := by
  simp [mark?, h]

theorem Line.mark?_of_ends {l : Line} {first last : Char}
    (hf : l.statement.toList.head? = some first) (hl : l.statement.toList.getLast? = some last)
    (hc : first ≠ '/') : l.mark? = some ⟨l.level, first == '}', last == '{'⟩ := by
  obtain ⟨rest, hrest⟩ := List.head?_eq_some_iff.mp hf
  have hcomment : Text.startsWith "//" l.statement = false := by
    simp [Text.startsWith, hrest, List.isPrefixOf, Ne.symm hc]
  simp [mark?, hcomment, hf, hl]

/-- The number of blocks that are open after a line, from the number `d` before it. The level of
the line must be that number, after the line has closed a block if it closes one. -/
def Mark.step (m : Mark) (d : Nat) : Option Nat :=
  if d = m.level + m.closes.toNat then some (m.level + m.opens.toNat) else none

/-- A line without a mark leaves the blocks alone. -/
def Mark.pass (d : Nat) : Option Mark → Option Nat
  | none => some d
  | some m => m.step d

theorem Mark.pass_replicate (d n : Nat) :
    (List.replicate n (some (Mark.mk d false false))).foldlM Mark.pass d = some d := by
  induction n with
  | zero => rfl
  | succ n ih => simpa [List.replicate_succ, Mark.pass, Mark.step] using ih

/-- The levels of the lines are the numbers of open blocks, from `d` of them to `e`. -/
def Aligned (d : Nat) (lines : List Line) (e : Nat) : Prop :=
  (lines.map Line.mark?).foldlM Mark.pass d = some e

instance (d : Nat) (lines : List Line) (e : Nat) : Decidable (Aligned d lines e) :=
  inferInstanceAs (Decidable (_ = _))

namespace Aligned

theorem nil (d : Nat) : Aligned d [] d :=
  rfl

theorem cons_iff {d e : Nat} {l : Line} {lines : List Line} :
    Aligned d (l :: lines) e ↔ ∃ inner, Mark.pass d l.mark? = some inner ∧ Aligned inner lines e := by
  rw [Aligned, List.map_cons, List.foldlM_cons]
  exact Option.bind_eq_some_iff

theorem cons {d inner e : Nat} {l : Line} {lines : List Line}
    (hl : Mark.pass d l.mark? = some inner) (h : Aligned inner lines e) : Aligned d (l :: lines) e :=
  cons_iff.mpr ⟨inner, hl, h⟩

theorem append_iff {d f : Nat} {lines lines' : List Line} :
    Aligned d (lines ++ lines') f ↔ ∃ e, Aligned d lines e ∧ Aligned e lines' f := by
  rw [Aligned, List.map_append, List.foldlM_append]
  exact Option.bind_eq_some_iff

theorem append {d e f : Nat} {lines lines' : List Line} (h : Aligned d lines e)
    (h' : Aligned e lines' f) : Aligned d (lines ++ lines') f :=
  append_iff.mpr ⟨e, h, h'⟩

/-- Comments do not matter. -/
theorem of_unmarked {lines : List Line} (h : ∀ l ∈ lines, l.mark? = none) (d : Nat) :
    Aligned d lines d := by
  induction lines with
  | nil => exact .nil d
  | cons l lines ih =>
      refine .cons ?_ (ih fun l hm => h l (by simp [hm]))
      rw [h l (by simp), Mark.pass]

end Aligned

/-! ## Blank lines -/

def Line.isBlank (l : Line) : Bool :=
  l.statement.isEmpty

def Line.visible (lines : List Line) : List Line :=
  lines.filter (!·.isBlank)

@[simp] theorem Line.visible_append (lines lines' : List Line) :
    visible (lines ++ lines') = visible lines ++ visible lines' :=
  List.filter_append ..

theorem Line.mark?_of_isBlank {l : Line} (h : l.isBlank = true) :
    l.mark? = some ⟨l.level, false, false⟩ := by
  have hempty : l.statement = "" := String.isEmpty_iff.mp h
  rw [mark?, hempty]
  rfl

/-- Blank lines can be left out, since they open and close nothing. -/
theorem Aligned.visible {d e : Nat} {lines : List Line} (h : Aligned d lines e) :
    Aligned d (Line.visible lines) e := by
  induction lines generalizing d with
  | nil => exact h
  | cons l lines ih =>
      obtain ⟨inner, hl, h⟩ := cons_iff.mp h
      cases hb : l.isBlank with
      | true =>
          rw [Line.mark?_of_isBlank hb] at hl
          have hinner : inner = d := by
            simp only [Mark.pass, Mark.step, Option.ite_none_right_eq_some, Option.some.injEq,
              Bool.toNat_false] at hl
            omega
          rw [Line.visible, List.filter_cons_of_neg (by simp [hb])]
          exact ih (hinner ▸ h)
      | false =>
          rw [Line.visible, List.filter_cons_of_pos (by simp [hb])]
          exact .cons hl (ih h)

/-! ## Raised lines -/

@[simp] theorem Line.mark?_raise (n : Nat) (l : Line) :
    (l.raise n).mark? = l.mark?.map fun m => { m with level := m.level + n } := by
  unfold mark? raise
  split <;> simp_all

theorem Mark.step_raise {m : Mark} {d e : Nat} (n : Nat) (h : m.step d = some e) :
    ({ m with level := m.level + n } : Mark).step (d + n) = some (e + n) := by
  unfold step at h ⊢
  split at h
  · have he := Option.some.inj h
    rw [if_pos (by simp only; omega)]
    simp only [Option.some.injEq]
    omega
  · simp at h

theorem Aligned.raise {d e : Nat} {lines : List Line} (n : Nat) (h : Aligned d lines e) :
    Aligned (d + n) (lines.map (Line.raise n)) (e + n) := by
  induction lines generalizing d with
  | nil =>
      obtain rfl : d = e := by simpa [Aligned] using h
      exact .nil _
  | cons l lines ih =>
      obtain ⟨inner, hl, h⟩ := cons_iff.mp h
      refine .cons ?_ (ih h)
      rw [Line.mark?_raise]
      cases hm : l.mark? with
      | none => simp_all [Mark.pass]
      | some m =>
          rw [hm] at hl
          exact Mark.step_raise n hl

/-! ## Reading the blocks back -/

/-- Lines and blocks in order. A block is a line that opens it and what stands in it; the line that
closes it comes next. -/
inductive Forest
  | nil
  | line (text : String) (next : Forest)
  | block (opening : String) (body next : Forest)
  deriving DecidableEq

namespace Forest

/-- Puts a line before what was read after it. The stack has the forest of the block that the line
stands in, then that of the block around it, and so on. -/
def push (l : Line) (stack : List Forest) : Option (List Forest) :=
  match l.mark?, stack with
  | some ⟨_, closes, true⟩, body :: next :: rest =>
    some ((if closes then [nil] else []) ++ block l.statement body next :: rest)
  | some ⟨_, closes, false⟩, next :: rest =>
    some ((if closes then [nil] else []) ++ line l.statement next :: rest)
  | none, next :: rest => some (line l.statement next :: rest)
  | _, _ => none

/-- Reads lines from the last to the first. -/
def readOnto (lines : List Line) (stack : List Forest) : Option (List Forest) :=
  lines.foldr (fun l stack => stack.bind (push l)) (some stack)

/-- The forest of lines in which every block is closed. -/
def read? (lines : List Line) : Option Forest :=
  match readOnto lines [nil] with
  | some [f] => some f
  | _ => none

theorem readOnto_append {lines lines' : List Line} {stack stack' : List Forest}
    (h : readOnto lines' stack = some stack') :
    readOnto (lines ++ lines') stack = readOnto lines stack' := by
  rw [readOnto, List.foldr_append]
  change lines.foldr _ (readOnto lines' stack) = _
  rw [h]
  rfl

@[simp] theorem readOnto_cons (l : Line) (lines : List Line) (stack : List Forest) :
    readOnto (l :: lines) stack = (readOnto lines stack).bind (push l) :=
  rfl

theorem push_raise (n : Nat) (l : Line) (stack : List Forest) :
    push (l.raise n) stack = push l stack := by
  unfold push
  rw [Line.mark?_raise]
  cases l.mark? with
  | none => rfl
  | some m =>
      obtain ⟨level, closes, opens⟩ := m
      rcases stack with _ | ⟨f, _ | ⟨g, rest⟩⟩ <;> cases opens <;> rfl

theorem readOnto_raise (n : Nat) (lines : List Line) (stack : List Forest) :
    readOnto (lines.map (Line.raise n)) stack = readOnto lines stack := by
  induction lines with
  | nil => rfl
  | cons l lines ih => rw [List.map_cons, readOnto_cons, readOnto_cons, ih, funext (push_raise n l)]

/-- Aligned lines can be read: each block that is open where they begin, or closed in them, has its
own forest on the stack. -/
theorem readOnto_of_aligned {d e : Nat} {lines : List Line} (h : Aligned d lines e)
    {stack : List Forest} (hs : stack.length = e + 1) :
    ∃ stack', readOnto lines stack = some stack' ∧ stack'.length = d + 1 := by
  induction lines generalizing d with
  | nil =>
      obtain rfl : d = e := by simpa [Aligned] using h
      exact ⟨stack, rfl, hs⟩
  | cons l lines ih =>
      obtain ⟨inner, hl, h⟩ := Aligned.cons_iff.mp h
      obtain ⟨after, hread, hlength⟩ := ih h
      rw [readOnto_cons, hread, Option.bind_some]
      unfold push
      cases hm : l.mark? with
      | none =>
          obtain ⟨f, rest, rfl⟩ := List.exists_cons_of_length_eq_add_one hlength
          simp_all [Mark.pass]
      | some m =>
          obtain ⟨level, closes, opens⟩ := m
          rw [hm] at hl
          simp only [Mark.pass, Mark.step, Option.ite_none_right_eq_some, Option.some.injEq] at hl
          obtain ⟨hd, hi⟩ := hl
          cases opens with
          | true =>
              obtain ⟨body, next, rest, rfl⟩ : ∃ body next rest, after = body :: next :: rest := by
                rcases after with _ | ⟨body, _ | ⟨next, rest⟩⟩
                · simp at hlength
                · simp only [List.length_singleton, Bool.toNat_true] at hlength hi
                  omega
                · exact ⟨body, next, rest, rfl⟩
              refine ⟨_, rfl, ?_⟩
              cases closes <;> simp_all
          | false =>
              obtain ⟨next, rest, rfl⟩ := List.exists_cons_of_length_eq_add_one hlength
              refine ⟨_, rfl, ?_⟩
              cases closes <;> simp_all

/-! ### What stands on the stack already -/

/-- One forest and, behind it, another. -/
def graft : Forest → Forest → Forest
  | nil, after => after
  | line text next, after => line text (next.graft after)
  | block opening body next, after => block opening body (next.graft after)

/-- Reading a line does not look at what is below the last forest of the stack, nor behind it. -/
theorem push_graft {l : Line} {above stack : List Forest} {f : Forest}
    (h : push l (above ++ [f]) = some stack) (after : Forest) (rest : List Forest) :
    ∃ above' f', stack = above' ++ [f'] ∧
      push l (above ++ f.graft after :: rest) = some (above' ++ f'.graft after :: rest) := by
  unfold push at h ⊢
  cases hm : l.mark? with
  | none =>
      rw [hm] at h
      cases above with
      | nil =>
          obtain rfl := Option.some.inj h
          exact ⟨[], _, rfl, rfl⟩
      | cons next above =>
          obtain rfl := Option.some.inj h
          exact ⟨line l.statement next :: above, f, rfl, rfl⟩
  | some m =>
      obtain ⟨level, closes, opens⟩ := m
      rw [hm] at h
      cases opens with
      | false =>
          cases above with
          | nil =>
              obtain rfl := Option.some.inj h
              exact ⟨if closes then [nil] else [], line l.statement f, rfl, rfl⟩
          | cons next above =>
              obtain rfl := Option.some.inj h
              refine ⟨(if closes then [nil] else []) ++ line l.statement next :: above, f, ?_, ?_⟩
              · simp
              · simp
      | true =>
          rcases above with _ | ⟨body, _ | ⟨next, above⟩⟩
          · simp at h
          · obtain rfl := Option.some.inj h
            exact ⟨if closes then [nil] else [], block l.statement body f, rfl, rfl⟩
          · obtain rfl := Option.some.inj h
            refine ⟨(if closes then [nil] else []) ++ block l.statement body next :: above, f, ?_, ?_⟩
            · simp
            · simp

theorem readOnto_graft {lines : List Line} {f : Forest} (h : readOnto lines [nil] = some [f])
    (after : Forest) (rest : List Forest) :
    readOnto lines (after :: rest) = some (f.graft after :: rest) := by
  suffices hall : ∀ stack, readOnto lines [nil] = some stack → ∃ above g, stack = above ++ [g] ∧
      readOnto lines (after :: rest) = some (above ++ g.graft after :: rest) by
    obtain ⟨above, g, hs, hr⟩ := hall [f] h
    obtain ⟨rfl, rfl⟩ : above = [] ∧ f = g := by
      cases above with
      | nil => simpa using hs
      | cons _ above => simp at hs
    exact hr
  clear h
  induction lines with
  | nil =>
      intro stack h
      obtain rfl := Option.some.inj h
      exact ⟨[], nil, rfl, rfl⟩
  | cons l lines ih =>
      intro stack h
      rw [readOnto_cons] at h
      obtain ⟨mid, hmid, hpush⟩ := Option.bind_eq_some_iff.mp h
      obtain ⟨above, g, rfl, hr⟩ := ih mid hmid
      obtain ⟨above', g', rfl, hp⟩ := push_graft hpush after rest
      exact ⟨above', g', rfl, by rw [readOnto_cons, hr, Option.bind_some, hp]⟩

/-! ### Lines that open one block -/

def leaves (lines : List Line) (next : Forest) : Forest :=
  lines.foldr (fun l next => line l.statement next) next

/-- The first line that opens a block opens it around `body`, into which the lines after it go. -/
def opened : List Line → Forest → Forest → Forest
  | [], body, _ => body
  | l :: lines, body, next =>
    if l.mark?.any (·.opens) then block l.statement (leaves lines body) next
    else line l.statement (opened lines body next)

/-- Neither opens nor closes a block. -/
def IsQuiet (l : Line) : Prop :=
  ∃ level, l.mark? = some ⟨level, false, false⟩

theorem readOnto_leaves {lines : List Line} (h : ∀ l ∈ lines, IsQuiet l) (next : Forest)
    (rest : List Forest) : readOnto lines (next :: rest) = some (leaves lines next :: rest) := by
  induction lines with
  | nil => rfl
  | cons l lines ih =>
      obtain ⟨level, hl⟩ := h l (by simp)
      rw [readOnto_cons, ih fun l hm => h l (by simp [hm])]
      simp [push, hl, leaves]

theorem readOnto_opened {before after : List Line} {l : Line} {level : Nat}
    (hb : ∀ l ∈ before, IsQuiet l) (hl : l.mark? = some ⟨level, false, true⟩)
    (ha : ∀ l ∈ after, IsQuiet l) (body next : Forest) (rest : List Forest) :
    readOnto (before ++ l :: after) (body :: next :: rest) =
      some (opened (before ++ l :: after) body next :: rest) := by
  induction before with
  | nil =>
      rw [List.nil_append, readOnto_cons, readOnto_leaves ha]
      simp [push, hl, opened]
  | cons q before ih =>
      obtain ⟨n, hq⟩ := hb q (by simp)
      rw [List.cons_append, readOnto_cons, ih fun l hm => hb l (by simp [hm])]
      simp [push, hq, opened]

end Forest

/-! ## Blocks without their lines -/

/-- Blocks in order, each with those in it. -/
inductive Nest
  | nil
  | block (inner next : Nest)
  deriving DecidableEq

def Nest.graft : Nest → Nest → Nest
  | nil, after => after
  | block inner next, after => block inner (next.graft after)

namespace Forest

def nest : Forest → Nest
  | nil => .nil
  | line _ next => next.nest
  | block _ body next => .block body.nest next.nest

@[simp] theorem nest_graft (f after : Forest) : (f.graft after).nest = f.nest.graft after.nest := by
  induction f with
  | nil => rfl
  | line text next ih => exact ih
  | block opening body next _ ih => simp [graft, nest, Nest.graft, ih]

@[simp] theorem nest_leaves (lines : List Line) (next : Forest) :
    (leaves lines next).nest = next.nest := by
  induction lines with
  | nil => rfl
  | cons l lines ih => exact ih

theorem nest_opened {before after : List Line} {l : Line} {m : Mark}
    (hb : ∀ l ∈ before, IsQuiet l) (hl : l.mark? = some m) (hm : m.opens = true)
    (body next : Forest) :
    (opened (before ++ l :: after) body next).nest = .block body.nest next.nest := by
  induction before with
  | nil => simp [opened, hl, hm, nest]
  | cons q before ih =>
      obtain ⟨n, hq⟩ := hb q (by simp)
      simpa [opened, hq, nest] using ih fun l hm => hb l (by simp [hm])

end Forest

end CestWriter
