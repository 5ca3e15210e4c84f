import CestWriter.Proofs.Emission.Role
import CestWriter.Proofs.Table

/-! # What becomes of a step

An enabled step that is written leaves at least one line, and no empty one, unless it is one of the few
that have nothing to do. One that is not written is unknown, has a bad argument, or names an element that
cannot be located. -/

namespace CestWriter

open Php (Piece Statement)

/-! ## Lines that show -/

theorem Fragment.isEmpty_iff {f : Fragment} :
    f.isEmpty = true ↔ f.lines = [] ∧ f.before = 0 ∧ f.after = 0 := by
  cases f with
  | statement text => cases h : text.isEmpty <;> simp [isEmpty, lines, before, after, h]
  | block b => simp [isEmpty, lines, before, after, and_assoc]

/-- No line of the template is ever written as an empty one. -/
def Template.isVisible (t : Template) : Bool :=
  t.rows.all fun row => row.2.isVisible

theorem Fragment.Follows.statement_ne_empty {H : Holes} {f : Fragment} {t : Template}
    (h : f.Follows H t) (ht : t.isVisible = true) : ∀ l ∈ f.lines, l.statement ≠ "" := by
  have hrows := List.all_eq_true.mp ht
  have hlines := h.lines
  generalize f.lines = lines at hlines
  generalize t.rows = rows at hlines hrows
  induction hlines with
  | nil => simp
  | @cons l row lines rows hl _ ih =>
      obtain ⟨hrow, hrest⟩ := List.forall_mem_cons.mp hrows
      obtain ⟨-, s, hs, hfollows⟩ := hl
      have hne := hfollows.render_ne_empty hrow
      refine List.forall_mem_cons.mpr ⟨fun hempty => ?_, ih hrest⟩
      rw [← hs, hempty] at hne
      contradiction

theorem Fragment.Follows.lines_eq_nil_iff {H : Holes} {f : Fragment} {t : Template}
    (h : f.Follows H t) : f.lines = [] ↔ t.rows = [] := by
  rw [← List.length_eq_zero_iff, h.lines.length_eq, List.length_eq_zero_iff]

theorem Form.lines_statement {s : Statement} (h : (Statement.render s).isEmpty = false) :
    (statement s).render.lines = [⟨0, s.render⟩] := by
  simp [render, Fragment.lines, h]

/-! ## Actions -/

namespace Action

theorem isVisible_templates (a : Action) : ∀ t ∈ a.templates, t.isVisible = true := by
  cases a <;> decide

/-- A template without lines does not shift the level either. -/
theorem eq_nothing_of_rows (a : Action) : ∀ t ∈ a.templates, t.rows = [] → t = .nothing := by
  cases a <;> decide

/-- The actions that leave nothing of a step. -/
def Vanishes (s : Step) : Action → Prop
  | skip => True
  | store | storeJson => s.value = ""
  | _ => False

theorem rows_ne_nil {a : Action} (h : a ∉ [skip, store, storeJson]) :
    ∀ t ∈ a.templates, t.rows ≠ [] := by
  cases a with
  | skip | store | storeJson => simp at h
  | _ => decide

end Action

theorem Form.lines_assign_eq_nil_iff {name : String} {value : Statement} :
    (statement (Statement.assign name value)).render.lines = [] ↔ name = "" := by
  by_cases h : name = ""
  · simp [Statement.assign, h, render, Statement.render_nil, Fragment.lines]
  · have hne : name.isEmpty = false := by simpa using h
    have hvisible : (Statement.render (Statement.assign name value)).isEmpty = false := by
      rw [Bool.eq_false_iff, ne_eq, String.isEmpty_iff, ← String.toList_eq_nil_iff]
      simp [Statement.assign, hne, Statement.toList_render, Piece.render, Php.slot]
    simp [lines_statement hvisible, h]

theorem Emission.render_runAsync_ne_empty (script : Script) (name : String) :
    ∃ s, callOrStore (runAsync script) name = .statement s ∧ (Statement.render s).isEmpty = false := by
  refine ⟨_, rfl, ?_⟩
  rw [Bool.eq_false_iff, ne_eq, String.isEmpty_iff, ← String.toList_eq_nil_iff,
    Statement.toList_render]
  cases hne : name.isEmpty with
  | true => simp [runAsync, Piece.render]
  | false => simp [Statement.assign, hne, Piece.render, Php.slot]

/-- What a step leaves: lines that are not empty, or nothing at all. -/
structure Fragment.Leaves (vanishes : Prop) (f : Fragment) : Prop where
  isEmpty_iff : f.isEmpty = true ↔ vanishes
  lines_eq_nil_iff : f.lines = [] ↔ vanishes
  statement_ne_empty : ∀ l ∈ f.lines, l.statement ≠ ""

theorem Fragment.leaves_of_lines {f : Fragment} (hne : f.lines ≠ [])
    (hlines : ∀ l ∈ f.lines, l.statement ≠ "") : f.Leaves False :=
  ⟨iff_of_false (fun h => hne (isEmpty_iff.mp h).1) id, iff_of_false hne id, hlines⟩

theorem Action.compose_leaves {a : Action} {setting : Setting} {s : Step} {form : Form}
    (h : a.compose setting s = .ok form) : form.render.Leaves (a.Vanishes s) := by
  by_cases hasync : a = .executeAsyncScript
  · subst hasync
    obtain rfl := Except.ok.inj h
    obtain ⟨statement, hform, hne⟩ :=
      Emission.render_runAsync_ne_empty (Argument.script s.target) s.value
    have hlines := Form.lines_statement hne
    rw [← hform] at hlines
    refine Fragment.leaves_of_lines (by simp [hlines]) ?_
    rw [hlines]
    exact List.forall_mem_singleton.mpr (by simpa using hne)
  · obtain ⟨t, ht, hf⟩ := compose_follows (Holes.any_admits setting.locators)
      (fun _ _ => trivial) hasync h
    have hstatements := hf.statement_ne_empty (a.isVisible_templates t ht)
    have hlines : form.render.lines = [] ↔ a.Vanishes s := by
      cases a with
      | skip => exact iff_of_true (Except.ok.inj h ▸ rfl) trivial
      | store | storeJson =>
          obtain rfl := Except.ok.inj h
          exact Form.lines_assign_eq_nil_iff
      | _ => exact iff_of_false (mt hf.lines_eq_nil_iff.mp (rows_ne_nil (by decide) t ht)) id
    refine ⟨?_, hlines, hstatements⟩
    rw [← hlines, Fragment.isEmpty_iff]
    refine ⟨And.left, fun hnil => ⟨hnil, ?_⟩⟩
    have hnothing := a.eq_nothing_of_rows t ht (hf.lines_eq_nil_iff.mp hnil)
    rw [hf.before, hf.after, hnothing]
    exact ⟨rfl, rfl⟩

/-! ## Steps -/

theorem Window.await_ne_empty (s : Step) : (await s).statement ≠ "" := by
  have hwait : Follows .any [.code "$this->waitForWindow($i, ", .int s.windowWait, .code ")"]
      [.code "$this->waitForWindow($i, ", .integer, .code ")"] :=
    .code (.int (.code .nil))
  cases hne : s.windowHandleName.isEmpty with
  | true =>
      have hclose : Follows .any [.code ";"] [.code ";"] := .code .nil
      simpa [await, hne] using (hwait.append hclose).render_ne_empty rfl
  | false =>
      have hassign := Follows.assign trivial hne hwait
      simpa [await, hne] using hassign.render_ne_empty rfl

/-- Lines stand around whatever is written for a step that opens a window. -/
theorem Window.wrap_leaves {s : Step} {f : Fragment} (h : ∀ l ∈ f.lines, l.statement ≠ "") :
    (wrap s f).Leaves False := by
  have hsnapshot : ∀ l ∈ snapshot, l.statement ≠ "" := by decide
  have hlines : (wrap s f).lines = snapshot ++ f.lines ++ [await s] := rfl
  refine Fragment.leaves_of_lines (by simp [hlines]) ?_
  rw [hlines, List.forall_mem_append, List.forall_mem_append, List.forall_mem_singleton]
  exact ⟨⟨hsnapshot, h⟩, await_ne_empty s⟩

/-- Commands that matter only while recording. -/
def recorderOnly : List String :=
  ["answerOnNextPrompt", "chooseCancelOnNextConfirmation", "chooseCancelOnNextPrompt",
    "chooseOkOnNextConfirmation", "debugger"]

/-- A step that has nothing to do: one that matters only while recording, or one that stores under no
name. -/
def Step.Vanishes (s : Step) : Prop :=
  s.opensWindow = false ∧
    (s.command ∈ recorderOnly ∨ s.command ∈ ["store", "storeJson"] ∧ s.value = "")

/-- The commands of an action are those with which it stands in the table. -/
theorem Action.ofCommand?_eq_some_iff {a : Action} {commands : List String}
    (h : (table.filter (·.2 = a)).map (·.1) = commands) {command : String} :
    ofCommand? command = some a ↔ command ∈ commands := by
  rw [← h, List.mem_map]
  constructor
  · intro ha
    exact ⟨_, List.mem_filter.mpr ⟨mem_table_of_ofCommand? ha, by simp⟩, rfl⟩
  · rintro ⟨entry, hentry, rfl⟩
    obtain ⟨hmem, rfl⟩ : entry ∈ table ∧ entry.2 = a := by simpa using List.mem_filter.mp hentry
    exact Table.lookup_of_mem nodup_table hmem

theorem Step.vanishes_iff {s : Step} {a : Action} (ho : s.opensWindow = false)
    (ha : Action.ofCommand? s.command = some a) : s.Vanishes ↔ a.Vanishes s := by
  have hskip : Action.ofCommand? s.command = some .skip ↔ s.command ∈ recorderOnly :=
    Action.ofCommand?_eq_some_iff (by decide)
  have hstore : Action.ofCommand? s.command = some .store ↔ s.command ∈ ["store"] :=
    Action.ofCommand?_eq_some_iff (by decide)
  have hjson : Action.ofCommand? s.command = some .storeJson ↔ s.command ∈ ["storeJson"] :=
    Action.ofCommand?_eq_some_iff (by decide)
  have hboth : s.command ∈ ["store", "storeJson"] ↔ a = .store ∨ a = .storeJson := by
    rw [List.mem_cons, ← List.mem_singleton, ← hstore, ← hjson, ha, Option.some.injEq,
      Option.some.injEq]
  rw [Vanishes, and_iff_right ho, ← hskip, hboth, ha, Option.some.injEq]
  cases a <;> simp [Action.Vanishes]

/-! ## Faults -/

/-- The prepared locators of a step: its target, its value, or what stands before an at sign in its
target. -/
inductive Step.Locates (s : Step) : String → Prop
  | target : Locates s (Argument.text s.target)
  | value : Locates s (Argument.text s.value)
  | attribute {locator key : String} (h : Argument.text s.target = locator ++ "@" ++ key) :
    Locates s locator

/-- Why a known command is not written: a bad argument, or a locator or an option that is not. -/
inductive Step.Refusal (w : LocatorWriter) (s : Step) : EmitError → Prop
  | badArgument (fault : BadArgument) : Refusal w s (.badArgument fault)
  | locator {p : String} {fault : EmitError} (hp : s.Locates p) (h : w.locator p = .error fault) :
    Refusal w s fault
  | option {fault : EmitError} (h : w.option (Argument.text s.value) = .error fault) :
    Refusal w s fault

variable {w : LocatorWriter} {s : Step}

theorem LocatorWriter.locator_fails {p : String} (hp : s.Locates p) :
    FailsWith (s.Refusal w) (w.locator p) :=
  fun _ h => .locator hp h

theorem LocatorWriter.option_fails : FailsWith (s.Refusal w) (w.option (Argument.text s.value)) :=
  fun _ h => .option h

namespace Emission

theorem floored_fails (what : String) (ifEmpty : Int) (raw : String) :
    FailsWith (s.Refusal w) (floored what ifEmpty raw) := by
  unfold floored
  dsimp only
  split
  · exact .ok _
  · split
    · exact .ok _
    · exact .error (.badArgument _)

theorem times_fails (prepared : String) : FailsWith (s.Refusal w) (times prepared) := by
  refine .bind ?_ fun _ => .ok _
  unfold repeatCount
  dsimp only
  split
  · exact .ok _
  · split
    · exact .error (.badArgument _)
    · exact .ok _

theorem setWindowSize_fails (raw : String) : FailsWith (s.Refusal w) (setWindowSize raw) := by
  refine .bind ?_ fun _ => .ok _
  unfold windowSize
  dsimp only
  split
  · exact .ok _
  · exact .error (.badArgument _)

theorem selectWindow_fails (prepared : String) :
    FailsWith (s.Refusal w) (selectWindow prepared) := by
  unfold selectWindow
  split
  · exact .ok _
  · exact .ok _
  · exact .ok _
  · split
    · exact .ok _
    · exact .error (.badArgument _)
  · exact .error (.badArgument _)

theorem selectFrame_fails : FailsWith (s.Refusal w) (selectFrame w (Argument.text s.target)) := by
  unfold selectFrame
  split
  · exact .ok _
  · split
    · exact .bind (floored_fails _ _ _) fun _ => .ok _
    · exact .bind (LocatorWriter.locator_fails .target) fun _ => .ok _

theorem storeAttribute_fails (name : String) :
    FailsWith (s.Refusal w) (storeAttribute w (Argument.text s.target) name) := by
  unfold storeAttribute
  split
  · exact .error (.badArgument _)
  · next locator key hcut =>
      have htext : Argument.text s.target = locator ++ "@" ++ key := by
        rw [← String.toList_inj, Text.eq_of_cutLast? hcut]
        simp
      have hlocates : s.Locates locator := .attribute htext
      exact .bind (LocatorWriter.locator_fails hlocates) fun _ => .ok _

theorem runTest_fails (name : String) : FailsWith (s.Refusal w) (runTest name) := by
  unfold runTest
  dsimp only
  split
  · exact .error (.badArgument _)
  · exact .ok _

end Emission

open LocatorWriter in
/-- What an action is not written for. -/
theorem Action.compose_fails (a : Action) (setting : Setting) (s : Step) :
    FailsWith (s.Refusal setting.locators) (a.compose setting s) := by
  cases a with
  | setWindowSize => exact Emission.setWindowSize_fails s.target
  | selectWindow => exact Emission.selectWindow_fails (Argument.text s.target)
  | selectFrame => exact Emission.selectFrame_fails
  | times => exact Emission.times_fails (Argument.text s.target)
  | runTest => exact Emission.runTest_fails s.target
  | storeAttribute => exact Emission.storeAttribute_fails s.value
  | pause => exact .bind (Emission.floored_fails _ _ _) fun _ => .ok _
  | dragAndDrop =>
      exact .bind (locator_fails .target) fun _ => .bind (locator_fails .value) fun _ => .ok _
  | selectOption =>
      exact .bind (locator_fails .target) fun _ => .bind option_fails fun _ => .ok _
  | waitForElementPresent | waitForElementVisible | waitForElementNotVisible
  | waitForElementNotPresent | waitForElementEditable | waitForElementNotEditable =>
      exact .bind (locator_fails .target) fun _ => .bind (Emission.floored_fails _ _ _) fun _ => .ok _
  | click | doubleClick | check | uncheck | sendKeys | editContent | mouseDown | mouseMove | mouseUp
  | verifyChecked | verifyNotChecked | verifyEditable | verifyNotEditable | verifyElementPresent
  | verifyElementNotPresent | verifyText | verifyNotText | verifyValue | verifySelectedLabel
  | verifyNotSelectedValue | waitForText | storeText | storeValue | storeXpathCount =>
      exact .bind (locator_fails .target) fun _ => .ok _
  | _ => exact .ok _

/-! ## The outcomes of a step -/

theorem Action.exists_ofCommand?_iff {command : String} :
    (∃ a, ofCommand? command = some a) ↔ command ∈ table.map (·.1) := by
  rw [← Option.isSome_iff_exists, ofCommand?, Table.isSome_lookup_iff]

namespace Registry

theorem emit_builtin_leaves {setting : Setting} {f : Fragment} (hs : s.isDisabled = false)
    (h : builtin.emit setting s = .ok f) : f.Leaves s.Vanishes := by
  obtain ⟨a, form, ha, hform, rfl⟩ := (emit_builtin_eq_ok_iff hs).mp h
  have hleaves := Action.compose_leaves hform
  cases ho : s.opensWindow with
  | false =>
      have hvanishes : a.Vanishes s = s.Vanishes := propext (Step.vanishes_iff ho ha).symm
      rw [← hvanishes]
      simpa using hleaves
  | true =>
      have hvanishes : s.Vanishes = False := by simp [Step.Vanishes, ho]
      rw [hvanishes]
      simpa using Window.wrap_leaves hleaves.statement_ne_empty

theorem emit_builtin_fails {setting : Setting} {a : Action} (hs : s.isDisabled = false)
    (ha : Action.ofCommand? s.command = some a) :
    FailsWith (s.Refusal setting.locators) (builtin.emit setting s) := by
  intro fault hfault
  rw [emit_builtin_of_command rfl hs ha, map_eq_error_iff, map_eq_error_iff] at hfault
  exact a.compose_fails setting s fault hfault

/-- No enabled step vanishes silently. A command outside of the table is reported by its name. Any other
fails for a bad argument or for what cannot be located, or leaves lines none of which is empty; nothing is
left of a step just if it has nothing to do and opens no window. -/
theorem emit_builtin_outcome (setting : Setting) {s : Step} (hs : s.isDisabled = false) :
    (s.command ∉ Action.table.map (·.1) →
      builtin.emit setting s = .error (.unknownCommand s.command)) ∧
    (s.command ∈ Action.table.map (·.1) → ∀ fault, builtin.emit setting s = .error fault →
      s.Refusal setting.locators fault) ∧
    ∀ f, builtin.emit setting s = .ok f → f.Leaves s.Vanishes := by
  refine ⟨fun hunknown => ?_, fun hknown => ?_, fun f => emit_builtin_leaves hs⟩
  · rw [← Action.exists_ofCommand?_iff] at hunknown
    have hnone : Action.ofCommand? s.command = none :=
      Option.eq_none_iff_forall_ne_some.mpr fun a ha => hunknown ⟨a, ha⟩
    rw [emit, if_neg (by simp [hs]), emitter?_builtin, hnone, Option.map_none]
  · obtain ⟨a, ha⟩ := Action.exists_ofCommand?_iff.mpr hknown
    exact emit_builtin_fails hs ha

/-- A step that stores under no name, the same step where it opens a window, and an unknown one. -/
theorem emit_builtin_outcome_of_nameless :
    let blind : LocatorWriter := ⟨fun p => .error (.failure p), fun p => .error (.failure p)⟩
    let setting : Setting := ⟨"", blind⟩
    let nameless : Step := { Step.blank with command := "store", target := "x" }
    let opening : Step := { nameless with opensWindow := true }
    let unknown : Step := { Step.blank with command := "fly" }
    let lost : Step := { Step.blank with command := "click", target := "nowhere" }
    (∃ f, builtin.emit setting nameless = .ok f ∧ f.isEmpty = true) ∧
    (∃ f, builtin.emit setting opening = .ok f ∧ f.lines ≠ []) ∧
    builtin.emit setting unknown = .error (.unknownCommand "fly") ∧
    ∃ fault, builtin.emit setting lost = .error fault ∧ lost.Refusal blind fault := by
  intro blind setting nameless opening unknown lost
  have hstore : Action.ofCommand? "store" = some .store := by decide +kernel
  have hclick : Action.ofCommand? "click" = some .click := by decide +kernel
  have hnameless : builtin.emit setting nameless = .ok _ :=
    (emit_builtin_eq_ok_iff (by decide)).mpr ⟨_, _, hstore, rfl, rfl⟩
  have hopening : builtin.emit setting opening = .ok _ :=
    (emit_builtin_eq_ok_iff (by decide)).mpr ⟨_, _, hstore, rfl, rfl⟩
  have hlost : builtin.emit setting lost = .error (.failure (Argument.text "nowhere")) :=
    emit_builtin_of_command (s := lost) rfl (by decide) hclick
  obtain ⟨-, -, hfirst⟩ := emit_builtin_outcome setting (s := nameless) (by decide)
  obtain ⟨-, -, hsecond⟩ := emit_builtin_outcome setting (s := opening) (by decide)
  obtain ⟨hunknown, -, -⟩ := emit_builtin_outcome setting (s := unknown) (by decide)
  obtain ⟨-, hfails, -⟩ := emit_builtin_outcome setting (s := lost) (by decide)
  refine ⟨⟨_, hnameless, ?_⟩, ⟨_, hopening, ?_⟩, hunknown (by decide), _, hlost, ?_⟩
  · exact (hfirst _ hnameless).isEmpty_iff.mpr ⟨rfl, .inr ⟨by decide, rfl⟩⟩
  · intro hnil
    obtain ⟨hcloses, -⟩ := (hsecond _ hopening).lines_eq_nil_iff.mp hnil
    contradiction
  · exact hfails (Action.exists_ofCommand?_iff.mp ⟨_, hclick⟩) _ hlost

end Registry

end CestWriter
