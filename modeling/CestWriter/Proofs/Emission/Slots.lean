import CestWriter.Proofs.Emission.Registry
import CestWriter.Proofs.Php.Verbatim

/-! # Slots that are named by arguments

Names of references have been taken apart before they reach a slot. Other names are arguments of a
step, taken as recorded and put between the quotes of the slot without being escaped. -/

namespace CestWriter

open Php (Operand Piece Statement Verbatim)

/-! ## Where arguments name slots -/

/-- A slot in a line: the code before it and its name. -/
structure SlotUse where
  lead : String
  name : String

namespace SlotUse

/-- The slot that a value is stored under; nothing is stored under an empty name. -/
def stored (name : String) : List SlotUse :=
  if name.isEmpty then [] else [⟨"", name⟩]

/-- The slot stands in one of the lines, after its code. -/
def StandsIn (u : SlotUse) (lines : List Line) : Prop :=
  ∃ l ∈ lines, ∃ trail, l.statement = u.lead ++ Php.slot u.name ++ trail

end SlotUse

/-- The slots that an action names by an argument of the step. -/
def Action.slotUses (s : Step) : Action → List SlotUse
  | store | storeJson | storeAttribute | storeText | storeTitle | storeValue | storeXpathCount
  | executeScript | executeAsyncScript => SlotUse.stored s.value
  | storeWindowHandle => SlotUse.stored s.target
  | assertStored => [⟨"$i->assertEquals(", s.target⟩]
  | forEach => [⟨"$collection = ", s.target⟩, ⟨"", s.value⟩]
  | _ => []

/-- The slots that a step names by its arguments. -/
def Step.slotUses (s : Step) : List SlotUse :=
  (Action.ofCommand? s.command).elim [] (Action.slotUses s) ++
    if s.opensWindow then SlotUse.stored s.windowHandleName else []

/-! ## The lines in which they stand -/

theorem Php.Statement.render_assign {name : String} (hne : name.isEmpty = false) (value : Statement) :
    (Statement.assign name value).render =
      Php.slot name ++ (" = " ++ Statement.render (value ++ [.code ";"])) := by
  simp only [Statement.assign, hne, Bool.false_eq_true, if_false, List.cons_append,
    Statement.render_cons, Piece.render]

namespace SlotUse

variable {u : SlotUse} {name : String}

theorem eq_of_mem_stored (h : u ∈ stored name) : name.isEmpty = false ∧ u = ⟨"", name⟩ := by
  unfold stored at h
  split at h
  · simp at h
  · rename_i hne
    exact ⟨by simpa using hne, List.mem_singleton.mp h⟩

theorem StandsIn.mono {lines lines' : List Line} (h : u.StandsIn lines)
    (hsub : ∀ l ∈ lines, l ∈ lines') : u.StandsIn lines' := by
  obtain ⟨l, hl, htrail⟩ := h
  exact ⟨l, hsub l hl, htrail⟩

theorem standsIn_of_assign {value : Statement} {n : Nat} {lines : List Line}
    (h : u ∈ stored name) (hl : ⟨n, (Statement.assign name value).render⟩ ∈ lines) :
    u.StandsIn lines := by
  obtain ⟨hne, rfl⟩ := eq_of_mem_stored h
  exact ⟨_, hl, _, by rw [String.empty_append, Statement.render_assign hne]⟩

theorem standsIn_statement {value : Statement} (h : u ∈ stored name) :
    u.StandsIn (Form.statement (Statement.assign name value)).render.lines := by
  refine standsIn_of_assign h (Form.mem_lines_statement ?_)
  rw [Bool.eq_false_iff, ne_eq, String.isEmpty_iff, ← String.toList_eq_nil_iff,
    Statement.render_assign (eq_of_mem_stored h).1]
  simp [Php.slot]

theorem standsIn_capture {temporary : String} {value : Statement} (h : u ∈ stored name) :
    u.StandsIn (Form.capture temporary value name).render.lines := by
  have hassign : (0, Statement.assign name [.code "$", .code temporary]) ∈
      if name.isEmpty then ([] : Form.Lines)
      else [(0, Statement.assign name [.code "$", .code temporary])] := by
    simp [(eq_of_mem_stored h).1]
  exact standsIn_of_assign h (Form.mem_lines_block (List.mem_append_right _ hassign))

theorem standsIn_callOrStore {call : Statement} (h : u ∈ stored name) :
    u.StandsIn (Emission.callOrStore call name).render.lines := by
  rw [Emission.callOrStore, (eq_of_mem_stored h).1]
  exact standsIn_statement h

theorem standsIn_await {s : Step} {f : Fragment} (h : u ∈ stored s.windowHandleName) :
    u.StandsIn (Window.wrap s f).lines := by
  have hawait : Window.await s = ⟨0, (Statement.assign s.windowHandleName
      [.code "$this->waitForWindow($i, ", .int s.windowWait, .code ")"]).render⟩ := by
    rw [Window.await, (eq_of_mem_stored h).1]
    rfl
  exact standsIn_of_assign h (List.mem_append_right _ (List.mem_singleton.mpr hawait.symm))

theorem standsIn_assertEquals (name value : String) : StandsIn ⟨"$i->assertEquals(", name⟩
    (Form.act "assertEquals" [[.slot name], [.quoted value]]).render.lines := by
  have hrender : (Statement.act "assertEquals" [[.slot name], [.quoted value]]).render =
      "$i->assertEquals(" ++ Php.slot name ++
        Statement.render [.code ", ", .quoted value, .code ");"] := by
    rw [← String.toList_inj]
    simp [Statement.act, Statement.commas, Statement.toList_render, Piece.render]
  refine ⟨_, Form.mem_lines_statement ?_, _, hrender⟩
  rw [Bool.eq_false_iff, ne_eq, String.isEmpty_iff, ← String.toList_eq_nil_iff, hrender]
  simp

theorem standsIn_forEach {collection item : String}
    (h : u ∈ [⟨"$collection = ", collection⟩, ⟨"", item⟩]) :
    u.StandsIn (Emission.forEach collection item).render.lines := by
  rcases List.mem_cons.mp h with rfl | h
  · refine ⟨_, Form.mem_lines_block (.head _), ";", ?_⟩
    rw [← String.toList_inj]
    simp [Statement.toList_render, Piece.render]
  · obtain rfl := List.mem_singleton.mp h
    refine ⟨_, Form.mem_lines_block (.tail _ (.tail _ (.head _))), " = $collection[$c];", ?_⟩
    rw [← String.toList_inj]
    simp [Statement.toList_render, Piece.render]

end SlotUse

theorem Action.standsIn_of_mem_slotUses {a : Action} {setting : Setting} {s : Step} {form : Form}
    {u : SlotUse} (h : a.compose setting s = .ok form) (hu : u ∈ a.slotUses s) :
    u.StandsIn form.render.lines := by
  cases a with
  | store | storeJson =>
      obtain rfl := Except.ok.inj h
      exact SlotUse.standsIn_statement hu
  | storeTitle | storeWindowHandle =>
      obtain rfl := Except.ok.inj h
      exact SlotUse.standsIn_capture hu
  | storeText | storeValue | storeXpathCount =>
      obtain ⟨e, -, h⟩ := bind_eq_ok.mp h
      obtain rfl := Except.ok.inj h
      exact SlotUse.standsIn_capture hu
  | storeAttribute =>
      have h : Emission.storeAttribute setting.locators (Argument.text s.target) s.value = .ok form := h
      unfold Emission.storeAttribute at h
      split at h
      · cases h
      · obtain ⟨e, -, h⟩ := bind_eq_ok.mp h
        obtain rfl := Except.ok.inj h
        exact SlotUse.standsIn_capture hu
  | executeScript | executeAsyncScript =>
      obtain rfl := Except.ok.inj h
      exact SlotUse.standsIn_callOrStore hu
  | assertStored =>
      obtain rfl := Except.ok.inj h
      obtain rfl := List.mem_singleton.mp hu
      exact SlotUse.standsIn_assertEquals _ _
  | forEach =>
      obtain rfl := Except.ok.inj h
      exact SlotUse.standsIn_forEach hu
  | _ => simp [slotUses] at hu

namespace Registry

variable {setting : Setting} {s : Step} {f : Fragment}

theorem standsIn_of_mem_slotUses (hs : s.isDisabled = false) (h : builtin.emit setting s = .ok f)
    {u : SlotUse} (hu : u ∈ s.slotUses) : u.StandsIn f.lines := by
  obtain ⟨a, form, ha, hform, rfl⟩ := (emit_builtin_eq_ok_iff hs).mp h
  rw [Step.slotUses, ha] at hu
  rcases List.mem_append.mp hu with hu | hu
  · have hstands := Action.standsIn_of_mem_slotUses hform hu
    split
    · exact hstands.mono fun l hl => List.mem_append_left _ (List.mem_append_right _ hl)
    · exact hstands
  · split at hu
    · rename_i hopens
      rw [if_pos hopens]
      exact SlotUse.standsIn_await hu
    · simp at hu

/-- An argument that names a variable stands in a slot of one of the lines. The slot is read under that
name just where the name is verbatim, and then it ends where it was written to end. -/
theorem slot_named_iff_verbatim (hs : s.isDisabled = false) (h : builtin.emit setting s = .ok f)
    {u : SlotUse} (hu : u ∈ s.slotUses) :
    ∃ l ∈ f.lines, ∃ code trail, l.statement.toList = u.lead.toList ++ code ∧
      code = (Php.slot u.name).toList ++ trail ∧
      ∀ tail, Operand.read? code = some (.slot u.name.toList, tail) ↔
        Verbatim u.name.toList ∧ tail = trail := by
  obtain ⟨l, hl, trail, htext⟩ := standsIn_of_mem_slotUses hs h hu
  have hslot : (Php.slot u.name).toList = Operand.slotFront ++ u.name.toList ++ ['\'', ']'] := by
    simp [Php.slot, Operand.slotFront]
  refine ⟨l, hl, _, trail.toList, ?_, rfl, fun tail => ?_⟩
  · rw [htext, String.toList_append, String.toList_append, List.append_assoc]
  · rw [hslot]
    exact Php.read?_slot_iff

/-- A quote in a name ends the literal of its slot: the line is read as no slot of this name. -/
theorem slot_named_iff_verbatim_of_quote :
    let s : Step := { Step.blank with command := "store", target := "v", value := "it's" }
    ∃ f, builtin.emit ⟨"", .webDriver⟩ s = .ok f ∧ ⟨"", "it's"⟩ ∈ s.slotUses ∧
      ∃ l ∈ f.lines, ∃ code trail, l.statement.toList = "".toList ++ code ∧
        code = (Php.slot "it's").toList ++ trail ∧
        ∀ tail, Operand.read? code ≠ some (.slot "it's".toList, tail) := by
  intro s
  have hs : s.isDisabled = false := by decide
  have ha : Action.ofCommand? s.command = some .store := by decide +kernel
  have hf : builtin.emit ⟨"", .webDriver⟩ s = .ok _ :=
    (emit_builtin_eq_ok_iff hs).mpr ⟨_, _, ha, rfl, rfl⟩
  have hu : ⟨"", "it's"⟩ ∈ s.slotUses := by
    rw [Step.slotUses, ha]
    exact .head _
  obtain ⟨l, hl, code, trail, htext, hcode, hread⟩ := slot_named_iff_verbatim hs hf hu
  refine ⟨_, hf, hu, l, hl, code, trail, htext, hcode, fun tail hslot => ?_⟩
  exact absurd ((hread tail).mp hslot).1 (by decide)

end Registry

end CestWriter
