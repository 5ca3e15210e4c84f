import CestWriter.Proofs.ClassFile.Placement
import CestWriter.Proofs.Emission.Registry
import CestWriter.Proofs.Php.Verbatim

/-! # Windows are awaited around steps

A step that opens a window has four lines more than its emitter writes. Everything else in a body
stays where it is, whether windows are awaited in it or not, unless an emitter looks at whether its
step opens a window. -/

namespace CestWriter

open Php (Operand Verbatim)

/-- The same step, but not noted to open a window. -/
def Step.windowless (s : Step) : Step :=
  { s with opensWindow := false }

/-- A new window is awaited after the step. -/
def Step.awaitsWindow (s : Step) : Bool :=
  !s.isDisabled && s.opensWindow

theorem Step.awaitsWindow_windowless (s : Step) : s.windowless.awaitsWindow = false :=
  Bool.and_false _

/-! ## Four lines more -/

namespace Window

/-- Lines at a base level after those that note the windows that are open, and before the one that
waits for a new window. Its handle is kept if it has a name. -/
def around (s : Step) (base : Nat) (lines : List Line) : List Line :=
  [⟨base, "$i->executeInSelenium(function (RemoteWebDriver $driver) \x7b"⟩,
    ⟨base + 1, "$this->vars['windowHandles'] = $driver->getWindowHandles();"⟩,
    ⟨base, "\x7d);"⟩] ++ lines ++
  [⟨base, (if s.windowHandleName = "" then "" else Php.slot s.windowHandleName ++ " = ") ++
    "$this->waitForWindow($i, " ++ toString (s.windowTimeout.getD 2000) ++ ");"⟩]

theorem raise_snapshot (n : Nat) : snapshot.map (Line.raise n) =
    [⟨n, "$i->executeInSelenium(function (RemoteWebDriver $driver) \x7b"⟩,
      ⟨n + 1, "$this->vars['windowHandles'] = $driver->getWindowHandles();"⟩, ⟨n, "\x7d);"⟩] := by
  have hlines : snapshot = [⟨0, "$i->executeInSelenium(function (RemoteWebDriver $driver) \x7b"⟩,
      ⟨1, "$this->vars['windowHandles'] = $driver->getWindowHandles();"⟩, ⟨0, "\x7d);"⟩] := by
    decide
  simp [hlines, Line.raise, Nat.add_comm]

theorem raise_await (s : Step) (n : Nat) : (await s).raise n =
    ⟨n, (if s.windowHandleName = "" then "" else Php.slot s.windowHandleName ++ " = ") ++
      "$this->waitForWindow($i, " ++ toString (s.windowTimeout.getD 2000) ++ ");"⟩ := by
  have hwait : toString (s.windowWait : Int) = toString (s.windowTimeout.getD 2000) := rfl
  have hclose (text : String) : text ++ ")" ++ ";" = text ++ ");" := String.append_assoc
  by_cases hname : s.windowHandleName = ""
  · simp [await, hname, Line.raise, Php.Statement.render, Php.Piece.render, hwait, hclose, String.join]
  · simp [await, hname, Line.raise, Php.Statement.render, Php.Statement.assign, Php.Piece.render,
      hwait, hclose, String.join]

end Window

/-- The name of the slot that a line assigns to, as it is read back. -/
def Line.assigned? (l : Line) : Option (List Char) :=
  match Operand.read? l.statement.toList with
  | some (.slot name, rest) => if " = ".toList <+: rest then some name else none
  | _ => none

namespace Window

/-- The new handle is stored under the step's name for it, if there is one. -/
theorem assigned?_await {s : Step} (h : Verbatim s.windowHandleName.toList) (n : Nat) :
    ((await s).raise n).assigned? =
      if s.windowHandleName = "" then none else some s.windowHandleName.toList := by
  rw [raise_await]
  split_ifs with hname
  · simp [Line.assigned?, Operand.read?, Operand.slotFront, List.isPrefixOf?]
  · have hread (tail : String) : Operand.read? (Php.slot s.windowHandleName ++ (" = " ++ tail)).toList =
        some (.slot s.windowHandleName.toList, " = ".toList ++ tail.toList) := by
      have hslot : Operand.read? (Operand.slotFront ++ s.windowHandleName.toList ++ ['\'', ']'] ++
          (" = ".toList ++ tail.toList)) =
          some (.slot s.windowHandleName.toList, " = ".toList ++ tail.toList) :=
        Php.read?_slot_iff.mpr ⟨h, rfl⟩
      simpa [Php.slot, Operand.slotFront] using hslot
    simp only [Line.assigned?, String.append_assoc, hread]
    rw [if_pos (List.prefix_append _ _)]

theorem before_wrap (s : Step) (f : Fragment) : (wrap s f).before = f.before :=
  rfl

/-- A step that opens a window leads to the level that it leads to without. -/
theorem place_wrap (level : Level) (s : Step) (f : Fragment) : level.place (wrap s f) =
    (around s (level.shift f.before).depth (level.place f).1, (level.place f).2) := by
  have hlines : (wrap s f).lines = snapshot ++ f.lines ++ [await s] := rfl
  have hafter : (wrap s f).after = f.after := rfl
  rw [Level.place, Level.place, hlines, before_wrap, hafter, List.map_append, List.map_append,
    raise_snapshot, List.map_singleton, raise_await]
  rfl

end Window

/-! ## Emitters -/

namespace Registry

variable {r : Registry} {setting : Setting} {s : Step}

/-- What a step is written as apart from the lines that await a window. -/
def own (r : Registry) (setting : Setting) (s : Step) : Except EmitError Fragment :=
  if s.isDisabled then .ok (.statement (disabledComment s))
  else match r.emitter? s.command with
    | none => .error (.unknownCommand s.command)
    | some e => e setting s

theorem emit_eq_own : r.emit setting s =
    (r.own setting s).map fun f => if s.awaitsWindow then Window.wrap s f else f := by
  rw [emit, own, Step.awaitsWindow]
  cases s.isDisabled with
  | true => rfl
  | false =>
      simp only [Bool.false_eq_true, if_false, Bool.not_false, Bool.true_and]
      cases r.emitter? s.command <;> rfl

/-- No emitter looks at whether the step opens a window. -/
def Blind (r : Registry) : Prop :=
  ∀ name emitter, r.emitter? name = some emitter →
    ∀ setting s, emitter setting s.windowless = emitter setting s

theorem Blind.own_windowless (h : r.Blind) : r.own setting s.windowless = r.own setting s := by
  have hdisabled : s.windowless.isDisabled = s.isDisabled := rfl
  have hcommand : s.windowless.command = s.command := rfl
  rw [own, own, hdisabled, hcommand]
  split_ifs
  · rfl
  · cases hfound : r.emitter? s.command with
    | none => rfl
    | some emitter => exact h _ emitter hfound setting s

/-- The emitters of the action table look at the target and the value alone. -/
theorem blind_builtin : builtin.Blind := by
  intro name emitter h setting s
  rw [emitter?_builtin] at h
  obtain ⟨a, -, rfl⟩ := Option.map_eq_some_iff.mp h
  rfl

theorem Blind.register (h : r.Blind) {name : String} {e : Emitter}
    (he : ∀ setting s, e setting s.windowless = e setting s) : (r.register name e).Blind := by
  intro other emitter hfound
  rw [emitter?, Registry.register, Table.lookup_set] at hfound
  split_ifs at hfound
  · obtain rfl := Option.some.inj hfound
    exact he
  · exact h other emitter hfound

end Registry

namespace Placed

/-- A step in its place in a body, and the same step in its place in the body without windows: from
the same level to the same level, with the same comments and lines at the same base. One that opens a
window has the lines that await it around its own, and keeps the handle if it has a name for it. -/
structure Awaits (p plain : Placed) : Prop where
  step_eq : plain.step = p.step.windowless
  level_eq : plain.level = p.level
  base_eq : plain.base = p.base
  next_eq : (plain.level.place plain.fragment).2 = (p.level.place p.fragment).2
  comments_eq : ∀ options number, Exporter.comments options plain.base number plain.step =
    Exporter.comments options p.base number p.step
  lines_eq : p.lines =
    if p.step.awaitsWindow then Window.around p.step p.base plain.lines else plain.lines
  kept : p.step.awaitsWindow = true → Verbatim p.step.windowHandleName.toList →
    ∃ wait ∈ p.lines.getLast?, wait.assigned? =
      if p.step.windowHandleName = "" then none else some p.step.windowHandleName.toList

theorem awaits_wrap (s : Step) (level : Level) (f : Fragment) :
    Awaits ⟨s, level, if s.awaitsWindow then Window.wrap s f else f⟩ ⟨s.windowless, level, f⟩ := by
  cases hs : s.awaitsWindow with
  | false => exact ⟨rfl, rfl, rfl, rfl, fun _ _ => rfl, by simp [hs, lines], by simp [hs]⟩
  | true =>
      have hplace := Window.place_wrap level s f
      have hlines : lines ⟨s, level, Window.wrap s f⟩ =
          Window.around s (level.shift f.before).depth (level.place f).1 := by rw [lines, hplace]
      have hnext : (level.place (Window.wrap s f)).2 = (level.place f).2 := by rw [hplace]
      refine ⟨rfl, rfl, rfl, hnext.symm, fun _ _ => rfl, ?_, fun _ hname => ?_⟩
      · rw [if_pos rfl, if_pos hs, hlines]
        rfl
      · have hkept := Window.assigned?_await hname (level.shift f.before).depth
        rw [Window.raise_await] at hkept
        exact ⟨_, by rw [if_pos rfl, hlines, Window.around, List.getLast?_concat]; rfl, hkept⟩

end Placed

namespace Exporter

variable {e : Exporter} {pool : List Test} {options : RenderOptions}

/-- The step as its emitter is given it. One that runs a test has this test's name. -/
def namedStep (pool : List Test) (s : Step) : Except ExportError Step :=
  if s.command = "run" then
    match findTestIndex? pool s.target with
    | none => .error (.missingTest s.target)
    | some i => .ok { s with target := (pool[i]?.getD .blank).name }
  else .ok s

/-- What a step of a body is written as apart from the lines that await a window. -/
def writeOwn (e : Exporter) (pool : List Test) (options : RenderOptions) (s : Step) :
    Except ExportError Fragment :=
  (namedStep pool s).bind fun s => (e.registry.own (e.setting options) s).mapError .emit

theorem snd_writeStep (s : Step) : (e.writeStep pool options s).2 =
    (namedStep pool s).bind fun s => (e.registry.emit (e.setting options) s).mapError .emit := by
  rw [writeStep, namedStep]
  dsimp only
  split_ifs
  · cases findTestIndex? pool s.target <;> rfl
  · rfl

theorem eq_of_namedStep {s t : Step} (h : namedStep pool s = .ok t) :
    ∃ target, t = { s with target } := by
  rw [namedStep] at h
  split_ifs at h
  · cases hfind : findTestIndex? pool s.target with
    | none => simp [hfind] at h
    | some i =>
        rw [hfind] at h
        exact ⟨_, (Except.ok.inj h).symm⟩
  · exact ⟨s.target, (Except.ok.inj h).symm⟩

theorem namedStep_windowless (s : Step) :
    namedStep pool s.windowless = (namedStep pool s).map Step.windowless := by
  rw [namedStep, namedStep]
  show (if s.command = "run" then _ else _) = Except.map _ (if s.command = "run" then _ else _)
  split_ifs
  · show (match findTestIndex? pool s.target with | none => _ | some i => _) = _
    cases findTestIndex? pool s.target <;> rfl
  · rfl

theorem writeStep_eq_own (s : Step) : (e.writeStep pool options s).2 =
    (e.writeOwn pool options s).map fun f => if s.awaitsWindow then Window.wrap s f else f := by
  rw [snd_writeStep, writeOwn]
  cases hs : namedStep pool s with
  | error fault => rfl
  | ok t =>
      obtain ⟨target, rfl⟩ := eq_of_namedStep hs
      simp only [Except.bind, Registry.emit_eq_own]
      cases e.registry.own (e.setting options) { s with target } <;> rfl

theorem writeOwn_windowless (h : e.registry.Blind) (s : Step) :
    e.writeOwn pool options s.windowless = e.writeOwn pool options s := by
  rw [writeOwn, writeOwn, namedStep_windowless]
  cases namedStep pool s with
  | error fault => rfl
  | ok t => exact congrArg (Except.mapError ExportError.emit) h.own_windowless

theorem writeStep_windowless (h : e.registry.Blind) (s : Step) :
    (e.writeStep pool options s.windowless).2 = e.writeOwn pool options s := by
  rw [writeStep_eq_own, s.awaitsWindow_windowless, writeOwn_windowless h]
  exact congrFun Except.map_id _

/-! ## Bodies -/

/-- Steps up to the first that cannot be written, each placed where those before it end, and its
fault. -/
def trace (write : Step → Except ExportError Fragment) :
    Level → List Step → List Placed × Option ExportError
  | _, [] => ([], none)
  | level, s :: rest =>
    match write s with
    | .error fault => ([], some fault)
    | .ok f =>
      let (placed, fault) := trace write (level.place f).2 rest
      (⟨s, level, f⟩ :: placed, fault)

theorem walk_trace (e : Exporter) (pool : List Test) (options : RenderOptions) (number : Nat)
    (level : Level) (steps : List Step) :
    let t := trace (fun s => (e.writeStep pool options s).2) level steps
    (e.walk pool options number level steps).lines = placedLines options number t.1 ∧
      (e.walk pool options number level steps).fault = t.2 := by
  induction steps generalizing number level with
  | nil => exact ⟨rfl, rfl⟩
  | cons s rest ih =>
      rw [walk, trace]
      cases hs : e.writeStep pool options s with
      | mk run result =>
          cases result with
          | error fault => exact ⟨rfl, rfl⟩
          | ok f =>
              obtain ⟨hlines, hfault⟩ := ih (number + 1) (level.place f).2
              dsimp only
              rw [placedLines_cons, hlines, hfault]
              exact ⟨by rw [Level.base_eq]; rfl, rfl⟩

theorem trace_awaits {write : Step → Except ExportError Fragment}
    (h : ∀ s, write s =
      (write s.windowless).map fun f => if s.awaitsWindow then Window.wrap s f else f)
    (level : Level) (steps : List Step) :
    List.Forall₂ Placed.Awaits (trace write level steps).1
        (trace write level (steps.map Step.windowless)).1 ∧
      (trace write level steps).2 = (trace write level (steps.map Step.windowless)).2 := by
  induction steps generalizing level with
  | nil => exact ⟨.nil, rfl⟩
  | cons s rest ih =>
      rw [List.map_cons, trace, trace, h s]
      cases write s.windowless with
      | error fault => exact ⟨.nil, rfl⟩
      | ok f =>
          have hplaced := Placed.awaits_wrap s level f
          obtain ⟨hrest, hfault⟩ := ih (level.place f).2
          simp only [Except.map]
          rw [← hplaced.next_eq]
          exact ⟨.cons hplaced hrest, hfault⟩

/-- Windows are awaited around the steps of a body and leave the rest of it alone, if no emitter looks
at whether its step opens a window. Each step is placed as it is in the body of the same steps of
which none does, and one that opens a window has three lines before its own and one line after them,
at their base, unless it is disabled. -/
theorem walk_awaits_windows (h : e.registry.Blind) (pool : List Test) (options : RenderOptions)
    (number : Nat) (level : Level) (steps : List Step) :
    let write := fun s => (e.writeStep pool options s).2
    let placed := trace write level steps
    let plain := trace write level (steps.map Step.windowless)
    let body := e.walk pool options number level steps
    let plainBody := e.walk pool options number level (steps.map Step.windowless)
    body.lines = placedLines options number placed.1 ∧ body.fault = placed.2 ∧
    plainBody.lines = placedLines options number plain.1 ∧ plainBody.fault = plain.2 ∧
    List.Forall₂ Placed.Awaits placed.1 plain.1 ∧ placed.2 = plain.2 := by
  intro write placed plain body plainBody
  have hwrite : ∀ s, write s =
      (write s.windowless).map fun f => if s.awaitsWindow then Window.wrap s f else f := by
    intro s
    show (e.writeStep pool options s).2 = Except.map _ (e.writeStep pool options s.windowless).2
    rw [writeStep_eq_own, writeStep_windowless h]
  obtain ⟨hlines, hfault⟩ := walk_trace e pool options number level steps
  obtain ⟨hplain, hplainFault⟩ :=
    walk_trace e pool options number level (steps.map Step.windowless)
  obtain ⟨hplaced, hsame⟩ := trace_awaits hwrite level steps
  exact ⟨hlines, hfault, hplain, hplainFault, hplaced, hsame⟩

/-- An end that nothing was opened for, and then a script that opens a window, of which the handle
is kept. -/
theorem walk_awaits_windows_of_script :
    let close : Step := { Step.blank with command := "end" }
    let script : Step := { Step.blank with
      command := "runScript", target := "window.open()", opensWindow := true, windowHandleName := "popup" }
    let steps := [close, script]
    let write := fun s => (default.writeStep [] ⟨"", false, false⟩ s).2
    default.registry.Blind ∧ (∀ s ∈ steps, ∃ f, write s = .ok f) ∧
      List.Forall₂ Placed.Awaits (trace write .start steps).1
        (trace write .start (steps.map Step.windowless)).1 := by
  intro close script steps write
  have hblind : default.registry.Blind := Registry.blind_builtin
  have hend : Action.ofCommand? "end" = some .endBlock := by decide +kernel
  have hscript : Action.ofCommand? "runScript" = some .runScript := by decide +kernel
  have hwritten {s : Step} (hrun : s.command ≠ "run") {f : Fragment}
      (h : default.registry.emit (default.setting ⟨"", false, false⟩) s = .ok f) : write s = .ok f := by
    show (default.writeStep [] ⟨"", false, false⟩ s).2 = .ok f
    rw [writeStep_eq hrun h]
  have hfirst : write close = .ok _ := hwritten (by decide)
    ((Registry.emit_builtin_eq_ok_iff (by decide)).mpr ⟨_, _, hend, rfl, rfl⟩)
  have hsecond : write script = .ok _ := hwritten (by decide)
    ((Registry.emit_builtin_eq_ok_iff (by decide)).mpr ⟨_, _, hscript, rfl, rfl⟩)
  have hall := walk_awaits_windows hblind [] ⟨"", false, false⟩ 1 .start steps
  have hsteps : ∀ s ∈ steps, ∃ f, write s = .ok f :=
    List.forall_mem_cons.mpr ⟨⟨_, hfirst⟩, List.forall_mem_singleton.mpr ⟨_, hsecond⟩⟩
  exact ⟨hblind, hsteps, hall.2.2.2.2.1⟩

/-- An emitter that looks at whether its step opens a window writes something else if it does; and a
handle whose name has a quote is not stored under this name. -/
theorem looking_emitter_writes_otherwise :
    let look : Emitter := fun _ s => .ok (.statement (if s.opensWindow then "opens();" else "stays();"))
    let e : Exporter := ⟨Registry.empty.register "look" look, .webDriver, .initial⟩
    let s : Step := { Step.blank with command := "look", opensWindow := true, windowHandleName := "it's" }
    let body := e.walk [] ⟨"", false, false⟩ 1 .start [s]
    let plainBody := e.walk [] ⟨"", false, false⟩ 1 .start [s.windowless]
    body.fault = none ∧ plainBody.fault = none ∧
      body.lines ≠ Window.around s 0 plainBody.lines ∧
      ∀ wait ∈ body.lines.getLast?, wait.assigned? = none := by
  decide +kernel

end Exporter

end CestWriter
