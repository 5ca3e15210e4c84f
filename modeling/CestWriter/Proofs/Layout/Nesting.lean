import CestWriter.Proofs.Emission.Role
import CestWriter.Proofs.Recording.Program

/-! # Block structure survives emission -/

namespace CestWriter

/-! ## Placing fragments -/

/-- The lines of fragments that are placed one after another, and the level after them. -/
def Level.placeAll (l : Level) : List Fragment → List Line × Level
  | [] => ([], l)
  | f :: rest => ((l.place f).1 ++ ((l.place f).2.placeAll rest).1, ((l.place f).2.placeAll rest).2)

theorem Level.placeAll_append (l : Level) (fs fs' : List Fragment) : l.placeAll (fs ++ fs') =
    ((l.placeAll fs).1 ++ ((l.placeAll fs).2.placeAll fs').1,
      ((l.placeAll fs).2.placeAll fs').2) := by
  induction fs generalizing l with
  | nil => rfl
  | cons f fs ih => simp only [List.cons_append, placeAll, ih, List.append_assoc]

/-- Fragments that are placed from depth `d` to depth `e` without going below zero. Their lines are
aligned, and read onto the forests `below` they give the forests `above`. -/
def Spans (fs : List Fragment) (d e : Nat) (above below : List Forest) : Prop :=
  ∃ lines, Level.placeAll ⟨d, false⟩ fs = (lines, ⟨e, false⟩) ∧ Aligned d lines e ∧
    Forest.readOnto lines below = some above

namespace Spans

variable {d e : Nat} {above mid below : List Forest}

theorem nil (d : Nat) (stack : List Forest) : Spans [] d d stack stack :=
  ⟨[], rfl, .nil d, rfl⟩

theorem append {fs fs' : List Fragment} {g : Nat} (h : Spans fs d e above mid)
    (h' : Spans fs' e g mid below) : Spans (fs ++ fs') d g above below := by
  obtain ⟨lines, hplace, haligned, hread⟩ := h
  obtain ⟨lines', hplace', haligned', hread'⟩ := h'
  refine ⟨lines ++ lines', ?_, haligned.append haligned', ?_⟩
  · rw [Level.placeAll_append, hplace, hplace']
  · rw [Forest.readOnto_append hread', hread]

theorem cons {f : Fragment} {fs : List Fragment} {g : Nat} (h : Spans [f] d e above mid)
    (h' : Spans fs e g mid below) : Spans (f :: fs) d g above below :=
  h.append h'

/-- A fragment whose shifts stay above zero is placed where it is, deeper by a base. -/
theorem place {f : Fragment} {n k m : Nat} (hb : f.before = -k) (ha : f.after = m)
    (haligned : Aligned k f.lines m) (hread : Forest.readOnto f.lines below = some above) :
    Spans [f] (n + k) (n + m) above below := by
  have hbefore : (⟨n + k, false⟩ : Level).shift f.before = ⟨n, false⟩ := by
    simp only [Level.shift, hb]
    rw [if_neg (by omega)]
    simp only [Level.mk.injEq, and_true]
    omega
  have hafter : (⟨n, false⟩ : Level).shift f.after = ⟨n + m, false⟩ := by
    simp only [Level.shift, ha]
    rw [if_neg (by omega)]
    simp only [Level.mk.injEq, and_true]
    omega
  refine ⟨f.lines.map (Line.raise n), ?_, ?_, ?_⟩
  · simp [Level.placeAll, Level.place, hbefore, hafter]
  · simpa only [Nat.add_comm n] using haligned.raise n
  · rw [Forest.readOnto_raise, hread]

end Spans

/-! ## One fragment -/

namespace Role.Plays

variable {before after : Int} {marks : List (Option Mark)}

theorem plain_inv (h : Plays .plain before after marks) :
    before = 0 ∧ after = 0 ∧ marks.foldlM Mark.pass 0 = some 0 := by
  cases h with
  | plain h => exact ⟨rfl, rfl, h⟩

theorem opening_inv (h : Plays .opening before after marks) :
    before = 0 ∧ after = 1 ∧ ∃ n m, marks = List.replicate n (some ⟨0, false, false⟩) ++
      some ⟨0, false, true⟩ :: List.replicate m (some ⟨1, false, false⟩) := by
  cases h with
  | opening n m => exact ⟨rfl, rfl, n, m, rfl⟩

theorem continuing_inv (h : Plays .continuing before after marks) :
    before = -1 ∧ after = 1 ∧ marks = [some ⟨0, true, true⟩] := by
  cases h with
  | continuing => exact ⟨rfl, rfl, rfl⟩

theorem closing_inv (h : Plays .closing before after marks) :
    before = -1 ∧ after = 0 ∧ marks = [some ⟨0, true, false⟩] := by
  cases h with
  | closing => exact ⟨rfl, rfl, rfl⟩

end Role.Plays

theorem Forest.isQuiet_of_replicate {lines : List Line} {d n : Nat}
    (h : lines.map Line.mark? = List.replicate n (some ⟨d, false, false⟩)) :
    ∀ l ∈ lines, IsQuiet l := by
  intro l hm
  have hmark := List.mem_map_of_mem (f := Line.mark?) hm
  rw [h] at hmark
  exact ⟨d, List.eq_of_mem_replicate hmark⟩

namespace Fragment.Plays

variable {f : Fragment} {rest : List Forest}

theorem spans_plain (h : f.Plays .plain) (d : Nat) (after : Forest) :
    Spans [f] d d (((Forest.read? f.lines).getD .nil).graft after :: rest) (after :: rest) := by
  obtain ⟨hb, ha, haligned⟩ := h.plain_inv
  have hone : [Forest.nil].length = 0 + 1 := rfl
  obtain ⟨stack, hstack, hlength⟩ := Forest.readOnto_of_aligned haligned hone
  obtain ⟨g, rfl⟩ := List.length_eq_one_iff.mp hlength
  have hread : Forest.read? f.lines = some g := by rw [Forest.read?, hstack]
  rw [hread, Option.getD_some]
  exact Spans.place (k := 0) (m := 0) hb ha haligned (Forest.readOnto_graft hstack after rest)

theorem spans_opening (h : f.Plays .opening) (d : Nat) (body next : Forest) :
    Spans [f] d (d + 1) (.opened f.lines body next :: rest) (body :: next :: rest) := by
  obtain ⟨hb, ha, n, m, hm⟩ := h.opening_inv
  have haligned : Aligned 0 f.lines 1 := by
    rw [Aligned, hm, List.foldlM_append, Mark.pass_replicate]
    exact Mark.pass_replicate 1 m
  obtain ⟨front, back, hlines, hfront, hback⟩ := List.map_eq_append_iff.mp hm
  obtain ⟨l, inner, rfl, hl, hinner⟩ := List.map_eq_cons_iff.mp hback
  have hread := Forest.readOnto_opened (Forest.isQuiet_of_replicate hfront) hl
    (Forest.isQuiet_of_replicate hinner) body next rest
  rw [← hlines] at hread
  exact Spans.place (k := 0) (m := 1) hb ha haligned hread

theorem spans_continuing (h : f.Plays .continuing) (d : Nat) (body next : Forest) :
    Spans [f] (d + 1) (d + 1) (.nil :: .opened f.lines body next :: rest)
      (body :: next :: rest) := by
  obtain ⟨hb, ha, hm⟩ := h.continuing_inv
  have haligned : Aligned 1 f.lines 1 := by
    rw [Aligned, hm]
    rfl
  obtain ⟨l, hlines, hl⟩ := List.map_eq_singleton_iff.mp hm
  have hread : Forest.readOnto f.lines (body :: next :: rest) =
      some (.nil :: .opened f.lines body next :: rest) := by
    rw [hlines]
    simp [Forest.readOnto, Forest.push, Forest.opened, Forest.leaves, hl]
  exact Spans.place (k := 1) (m := 1) hb ha haligned hread

theorem spans_closing (h : f.Plays .closing) (d : Nat) (next : Forest) :
    Spans [f] (d + 1) d (.nil :: .leaves f.lines next :: rest) (next :: rest) := by
  obtain ⟨hb, ha, hm⟩ := h.closing_inv
  have haligned : Aligned 1 f.lines 0 := by
    rw [Aligned, hm]
    rfl
  obtain ⟨l, hlines, hl⟩ := List.map_eq_singleton_iff.mp hm
  have hread : Forest.readOnto f.lines (next :: rest) =
      some (.nil :: .leaves f.lines next :: rest) := by
    rw [hlines]
    simp [Forest.readOnto, Forest.push, Forest.leaves, hl]
  exact Spans.place (k := 1) (m := 0) hb ha haligned hread

theorem nest_opening (h : f.Plays .opening) (body next : Forest) :
    (Forest.opened f.lines body next).nest = .block body.nest next.nest := by
  obtain ⟨-, -, n, m, hm⟩ := h.opening_inv
  obtain ⟨front, back, hlines, hfront, hback⟩ := List.map_eq_append_iff.mp hm
  obtain ⟨l, inner, rfl, hl, -⟩ := List.map_eq_cons_iff.mp hback
  rw [hlines]
  exact Forest.nest_opened (Forest.isQuiet_of_replicate hfront) hl rfl body next

theorem nest_continuing (h : f.Plays .continuing) (body next : Forest) :
    (Forest.opened f.lines body next).nest = .block body.nest next.nest := by
  obtain ⟨-, -, hm⟩ := h.continuing_inv
  obtain ⟨l, hlines, hl⟩ := List.map_eq_singleton_iff.mp hm
  have hnone : ∀ l ∈ ([] : List Line), Forest.IsQuiet l := by simp
  rw [hlines]
  exact Forest.nest_opened hnone hl rfl body next

end Fragment.Plays

/-! ## Programs -/

/-- The commands of control flow with their roles. -/
def controlRoles : List (String × Role) :=
  [("if", .opening), ("while", .opening), ("times", .opening), ("forEach", .opening),
    ("do", .opening), ("elseIf", .continuing), ("else", .continuing), ("repeatIf", .closing),
    ("end", .closing)]

theorem role_of_mem_controlRoles : ∀ entry ∈ controlRoles,
    Text.startsWith "//" entry.1 = false ∧
      (Action.ofCommand? entry.1).elim .plain Action.role = entry.2 := by
  decide +kernel

theorem Control.role_eq {commands : List String} (c : Control commands) {r : Role}
    (h : ∀ command ∈ commands, (command, r) ∈ controlRoles) : c.step.role = r := by
  obtain ⟨henabled, hrole⟩ := role_of_mem_controlRoles _ (h _ c.named)
  rw [Step.role, Step.isDisabled, henabled, if_neg (by decide), hrole]

theorem Step.role_plain {s : Step} (h : s.command ∉ controlCommands) : s.role = .plain := by
  unfold role
  split
  · rfl
  · cases ha : Action.ofCommand? s.command with
    | none => rfl
    | some a =>
        have hall : ∀ entry ∈ Action.table, entry.2.role ≠ .plain → entry.1 ∈ controlCommands := by
          decide
        by_contra hne
        exact h (hall _ (Action.mem_table_of_ofCommand? ha) hne)

namespace Control

theorem role_loop (c : Control ["while", "times", "forEach"]) : c.step.role = .opening :=
  c.role_eq (by decide)

theorem role_do (c : Control ["do"]) : c.step.role = .opening :=
  c.role_eq (by decide)

theorem role_if (c : Control ["if"]) : c.step.role = .opening :=
  c.role_eq (by decide)

theorem role_else (c : Control ["else"]) : c.step.role = .continuing :=
  c.role_eq (by decide)

theorem role_elseIf (c : Control ["elseIf"]) : c.step.role = .continuing :=
  c.role_eq (by decide)

theorem role_end (c : Control ["end"]) : c.step.role = .closing :=
  c.role_eq (by decide)

theorem role_repeatIf (c : Control ["repeatIf"]) : c.step.role = .closing :=
  c.role_eq (by decide)

end Control

section

variable {w : Step → Fragment} {rest : List Forest}

theorem Spans.opened {head : Fragment} {body tail : List Fragment} {d : Nat}
    {inner next : Forest} {below : List Forest} (hh : head.Plays .opening)
    (hb : Spans body (d + 1) (d + 1) (inner :: next :: rest) (.nil :: next :: rest))
    (ht : Spans tail (d + 1) d (.nil :: next :: rest) below) :
    Spans (head :: body ++ tail) d d (.opened head.lines inner next :: rest) below :=
  (hh.spans_opening d inner next).cons (hb.append ht)

theorem Spans.continued {head : Fragment} {body tail : List Fragment} {d : Nat}
    {inner next : Forest} {below : List Forest} (hh : head.Plays .continuing)
    (hb : Spans body (d + 1) (d + 1) (inner :: next :: rest) (.nil :: next :: rest))
    (ht : Spans tail (d + 1) d (.nil :: next :: rest) below) :
    Spans (head :: body ++ tail) (d + 1) d (.nil :: .opened head.lines inner next :: rest) below :=
  (hh.spans_continuing d inner next).cons (hb.append ht)

theorem Spans.closed {head tail : Fragment} {body next : List Fragment} {d : Nat}
    {inner after : Forest} {below : List Forest} (hh : head.Plays .opening)
    (hb : ∀ rest, Spans body (d + 1) (d + 1) (inner :: rest) (.nil :: rest))
    (ht : tail.Plays .closing) (hn : Spans next d d (after :: rest) below) :
    Spans (head :: body ++ tail :: next) d d
      (.opened head.lines inner (.leaves tail.lines after) :: rest) below :=
  .opened hh (hb _) ((ht.spans_closing d after).cons hn)

mutual
/-- A program is placed from a level back to it, and is read back as its tree. -/
theorem Program.spans (p : Program) (hw : ∀ s ∈ p.steps, (w s).Plays s.role) (d : Nat)
    (after : Forest) (rest : List Forest) :
    Spans (p.steps.map w) d d (p.forest (fun s => (w s).lines) after :: rest) (after :: rest) := by
  cases p with
  | done => exact .nil d _
  | plain s h next =>
      obtain ⟨hs, hnext⟩ := List.forall_mem_cons.mp hw
      rw [Step.role_plain h] at hs
      exact (hs.spans_plain d _).cons (next.spans hnext d after rest)
  | loop head body tail next =>
      obtain ⟨hhead, hbody, hrest⟩ := forall_mem_headed.mp hw
      obtain ⟨htail, hnext⟩ := List.forall_mem_cons.mp hrest
      simpa [Program.steps, Program.forest] using Spans.closed (head.role_loop ▸ hhead)
        (body.spans hbody (d + 1) .nil) (tail.role_end ▸ htail) (next.spans hnext d after rest)
  | doLoop head body tail next =>
      obtain ⟨hhead, hbody, hrest⟩ := forall_mem_headed.mp hw
      obtain ⟨htail, hnext⟩ := List.forall_mem_cons.mp hrest
      simpa [Program.steps, Program.forest] using Spans.closed (head.role_do ▸ hhead)
        (body.spans hbody (d + 1) .nil) (tail.role_repeatIf ▸ htail) (next.spans hnext d after rest)
  | branch head body branches next =>
      obtain ⟨hbranch, hnext⟩ := List.forall_mem_append.mp hw
      obtain ⟨hhead, hbody, hrest⟩ := forall_mem_headed.mp hbranch
      have hbranches := branches.spans hrest d (next.forest (fun s => (w s).lines) after) rest
      simpa [Program.steps, Program.forest] using Spans.opened (head.role_if ▸ hhead)
        (body.spans hbody (d + 1) .nil _) (hbranches.append (next.spans hnext d after rest))
/-- What follows the first branch closes the block that is open before it. -/
theorem Branches.spans (b : Branches) (hw : ∀ s ∈ b.steps, (w s).Plays s.role) (d : Nat)
    (after : Forest) (rest : List Forest) :
    Spans (b.steps.map w) (d + 1) d
      (.nil :: b.forest (fun s => (w s).lines) after :: rest) (after :: rest) := by
  cases b with
  | last tail =>
      have htail := tail.role_end ▸ List.forall_mem_singleton.mp hw
      exact htail.spans_closing d after
  | otherwise head body tail =>
      obtain ⟨hhead, hbody, hrest⟩ := forall_mem_headed.mp hw
      have htail := tail.role_end ▸ List.forall_mem_singleton.mp hrest
      simpa [Branches.steps, Branches.forest] using Spans.continued (head.role_else ▸ hhead)
        (body.spans hbody (d + 1) .nil _) (htail.spans_closing d after)
  | elseIf head body branches =>
      obtain ⟨hhead, hbody, hrest⟩ := forall_mem_headed.mp hw
      simpa [Branches.steps, Branches.forest] using Spans.continued (head.role_elseIf ▸ hhead)
        (body.spans hbody (d + 1) .nil _) (branches.spans hrest d after rest)
end

/-- The blocks that a plain step is read back as. -/
def Fragment.nest (f : Fragment) : Nest :=
  ((Forest.read? f.lines).getD .nil).nest

mutual
/-- The tree that a program is read back as has the blocks of the program. -/
theorem Program.nest_forest (p : Program) (hw : ∀ s ∈ p.steps, (w s).Plays s.role)
    (after : Forest) : (p.forest (fun s => (w s).lines) after).nest =
      p.nest (fun s => (w s).nest) after.nest := by
  cases p with
  | done => rfl
  | plain s h next =>
      obtain ⟨-, hnext⟩ := List.forall_mem_cons.mp hw
      simp [Program.forest, Program.nest, next.nest_forest hnext, Fragment.nest]
  | loop head body tail next =>
      obtain ⟨hhead, hbody, hrest⟩ := forall_mem_headed.mp hw
      obtain ⟨-, hnext⟩ := List.forall_mem_cons.mp hrest
      have hopening := head.role_loop ▸ hhead
      rw [Program.forest, hopening.nest_opening, body.nest_forest hbody, Forest.nest_leaves,
        next.nest_forest hnext]
      rfl
  | doLoop head body tail next =>
      obtain ⟨hhead, hbody, hrest⟩ := forall_mem_headed.mp hw
      obtain ⟨-, hnext⟩ := List.forall_mem_cons.mp hrest
      have hopening := head.role_do ▸ hhead
      rw [Program.forest, hopening.nest_opening, body.nest_forest hbody, Forest.nest_leaves,
        next.nest_forest hnext]
      rfl
  | branch head body branches next =>
      obtain ⟨hbranch, hnext⟩ := List.forall_mem_append.mp hw
      obtain ⟨hhead, hbody, hrest⟩ := forall_mem_headed.mp hbranch
      have hopening := head.role_if ▸ hhead
      rw [Program.forest, hopening.nest_opening, body.nest_forest hbody, branches.nest_forest hrest,
        next.nest_forest hnext]
      rfl
theorem Branches.nest_forest (b : Branches) (hw : ∀ s ∈ b.steps, (w s).Plays s.role)
    (after : Forest) : (b.forest (fun s => (w s).lines) after).nest =
      b.nest (fun s => (w s).nest) after.nest := by
  cases b with
  | last tail => simp [Branches.forest, Branches.nest]
  | otherwise head body tail =>
      obtain ⟨hhead, hbody, -⟩ := forall_mem_headed.mp hw
      have hcontinuing := head.role_else ▸ hhead
      rw [Branches.forest, hcontinuing.nest_continuing, body.nest_forest hbody, Forest.nest_leaves]
      rfl
  | elseIf head body branches =>
      obtain ⟨hhead, hbody, hrest⟩ := forall_mem_headed.mp hw
      have hcontinuing := head.role_elseIf ▸ hhead
      rw [Branches.forest, hcontinuing.nest_continuing, body.nest_forest hbody,
        branches.nest_forest hrest]
      rfl
end

end

/-- Only plain steps open windows. -/
theorem Program.noWindow (p : Program) :
    ∀ s ∈ p.steps, s.role ≠ .plain → s.opensWindow = false :=
  p.forall_steps (fun _ h hrole => (hrole (Step.role_plain h)).elim) fun c _ => c.noWindow

/-- The fragment that a step is written as, or the empty one. -/
def Step.written (setting : Setting) (s : Step) : Fragment :=
  (Registry.builtin.emit setting s).toOption.getD (.statement "")

theorem Step.written_of_mapM {setting : Setting} {steps : List Step} {fs : List Fragment}
    (h : steps.mapM (Registry.builtin.emit setting) = .ok fs) :
    fs = steps.map (written setting) ∧
      ∀ s ∈ steps, Registry.builtin.emit setting s = .ok (s.written setting) := by
  have hall := mapM_eq_ok_iff.mp h
  clear h
  induction hall with
  | nil => simp
  | @cons s f steps fs hs _ ih =>
      have hf : s.written setting = f := by rw [written, hs, Except.toOption, Option.getD_some]
      refine ⟨by rw [List.map_cons, hf, ← ih.1], ?_⟩
      intro t hm
      rcases List.mem_cons.mp hm with rfl | hm
      · rw [hf, hs]
      · exact ih.2 t hm

/-- The fragments of a program bring the level back to zero and never below. Every line stands at
the level of the blocks that are open, and reading the blocks back gives the tree of the program. -/
theorem Program.blocks_of_emission {setting : Setting} (p : Program) {fs : List Fragment}
    (h : p.steps.mapM (Registry.builtin.emit setting) = .ok fs) :
    ∃ lines f, Level.start.placeAll fs = (lines, Level.start) ∧ Aligned 0 lines 0 ∧
      Forest.read? lines = some f ∧ f = p.forest (fun s => (s.written setting).lines) .nil ∧
      f.nest = p.nest (fun s => (s.written setting).nest) .nil := by
  obtain ⟨rfl, hemit⟩ := Step.written_of_mapM h
  have hplays : ∀ s ∈ p.steps, (s.written setting).Plays s.role := fun s hm =>
    Registry.emit_builtin_plays (p.noWindow s hm) (hemit s hm)
  obtain ⟨lines, hplace, haligned, hread⟩ := p.spans hplays 0 .nil []
  exact ⟨lines, _, hplace, haligned, by rw [Forest.read?, hread], rfl, p.nest_forest hplays .nil⟩

end CestWriter
