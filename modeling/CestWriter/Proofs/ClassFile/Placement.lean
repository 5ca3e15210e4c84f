import CestWriter.ClassFile.Body
import CestWriter.Proofs.Recording.Runs
import CestWriter.Proofs.Text.Lead

/-! # Bodies, step by step

A body without a fault has the lines of its steps, each step below its comments and at the level
that the steps before it have reached. -/

namespace CestWriter

/-- Opens a window in one of its steps. -/
def Test.opensWindow (t : Test) : Bool :=
  t.commands.any (·.opensWindow)

/-- A step in a body, with the level before it and what it is written as. -/
structure Placed where
  step : Step
  level : Level
  fragment : Fragment

namespace Placed

/-- The level from which the lines of the fragment are counted. -/
def base (p : Placed) : Nat :=
  (p.level.shift p.fragment.before).depth

/-- The lines as they are placed, which counts them from the base. -/
def lines (p : Placed) : List Line :=
  (p.level.place p.fragment).1

end Placed

/-- The level foreseen for a fragment is the one that it is placed at, also where the shift before
it stops at zero. -/
theorem Level.base_eq (l : Level) (f : Fragment) : l.base f = (l.shift f.before).depth := by
  simp only [base, shift]
  split
  · exact Int.toNat_of_nonpos (by omega)
  · rfl

namespace Exporter

variable {e : Exporter} {pool : List Test} {options : RenderOptions}

/-! ## Comments -/

theorem startsWith_comments {level number : Nat} {s : Step} :
    ∀ l ∈ comments options level number s, Text.startsWith "// " l.statement = true := by
  have hslashes (text : String) : Text.startsWith "// " (Text.oneLine ("// " ++ text)) = true :=
    Text.startsWith_oneLine (by decide) (Text.startsWith_append (Text.startsWith_self _) text)
  intro l hl
  unfold comments at hl
  rcases List.mem_append.mp hl with hl | hl
  · split at hl
    · obtain rfl := List.mem_singleton.mp hl
      simpa only [String.append_assoc] using hslashes _
    · simp at hl
  · split at hl
    · obtain rfl := List.mem_singleton.mp hl
      exact hslashes _
    · simp at hl

theorem startsWith_traceHead {t : Test} :
    ∀ l ∈ traceHead options t, Text.startsWith "// " l.statement = true := by
  intro l hl
  unfold traceHead at hl
  split at hl
  · simp only [List.mem_cons, List.not_mem_nil, or_false] at hl
    rcases hl with rfl | rfl
    · have hlead : Text.startsWith "// " "// Test name: " = true := by decide
      exact Text.startsWith_append hlead _
    · decide
  · simp at hl

/-! ## Steps in a row -/

/-- Steps in a row, each written and placed where those before it end. -/
inductive Placement (e : Exporter) (pool : List Test) (options : RenderOptions) :
    Level → List Step → List Placed → Prop
  | nil (level : Level) : Placement e pool options level [] []
  | cons {level : Level} {s : Step} {f : Fragment} {rest : List Step} {placed : List Placed}
    (h : (e.writeStep pool options s).2 = .ok f)
    (hrest : Placement e pool options (level.place f).2 rest placed) :
    Placement e pool options level (s :: rest) (⟨s, level, f⟩ :: placed)

/-- The lines of placed steps, numbered from `number`, each step below its comments. -/
def placedLines (options : RenderOptions) (number : Nat) (placed : List Placed) : List Line :=
  (placed.zipIdx number).flatMap fun (p, n) => comments options p.base n p.step ++ p.lines

theorem placedLines_cons (number : Nat) (p : Placed) (placed : List Placed) :
    placedLines options number (p :: placed) =
      comments options p.base number p.step ++ p.lines ++ placedLines options (number + 1) placed := by
  simp [placedLines]

theorem fst_writeStep (s : Step) : (e.writeStep pool options s).1 =
    if s.command = "run" then findTestIndex? pool s.target else none := by
  unfold writeStep
  split
  · cases findTestIndex? pool s.target <;> rfl
  · rfl

theorem writeStep_eq {s : Step} {f : Fragment} (hrun : s.command ≠ "run")
    (h : e.registry.emit (e.setting options) s = .ok f) :
    e.writeStep pool options s = (none, .ok f) := by
  unfold writeStep
  rw [if_neg hrun]
  change (none, (e.registry.emit (e.setting options) s).mapError ExportError.emit) = _
  rw [h, Except.mapError]

/-- A step is written for the base address alone, whatever is said in comments. -/
theorem writeStep_congr {options' : RenderOptions} (h : options'.baseUrl = options.baseUrl) :
    e.writeStep pool options' = e.writeStep pool options := by
  funext s
  simp only [writeStep, setting, h]

namespace Placement

variable {level : Level} {steps : List Step} {placed : List Placed}

theorem steps_eq (h : e.Placement pool options level steps placed) : placed.map (·.step) = steps := by
  induction h with
  | nil => rfl
  | cons _ _ ih => rw [List.map_cons, ih]

theorem written (h : e.Placement pool options level steps placed) :
    ∀ p ∈ placed, (e.writeStep pool options p.step).2 = .ok p.fragment := by
  induction h with
  | nil => simp
  | cons hs _ ih => exact List.forall_mem_cons.mpr ⟨hs, ih⟩

theorem congr {options' : RenderOptions} (hurl : options'.baseUrl = options.baseUrl)
    (h : e.Placement pool options level steps placed) :
    e.Placement pool options' level steps placed := by
  induction h with
  | nil level => exact .nil level
  | cons hs _ ih => exact .cons (writeStep_congr hurl ▸ hs) ih

theorem walk_eq (h : e.Placement pool options level steps placed) (number : Nat) :
    e.walk pool options number level steps = ⟨placedLines options number placed,
      steps.filterMap fun s => if s.command = "run" then findTestIndex? pool s.target else none,
      steps.any (·.opensWindow), none⟩ := by
  induction h generalizing number with
  | nil => rfl
  | @cons level s f rest placed hs _ ih =>
      have hstep : e.writeStep pool options s =
          (if s.command = "run" then findTestIndex? pool s.target else none, .ok f) :=
        Prod.ext (fst_writeStep s) hs
      rw [walk, hstep]
      simp only [ih, placedLines_cons, Placed.lines, Placed.base, Level.base_eq, List.filterMap_cons,
        List.any_cons, Body.mk.injEq, and_true, true_and]
      cases (if s.command = "run" then findTestIndex? pool s.target else none : Option Nat) <;> rfl

end Placement

theorem exists_placement {number : Nat} {level : Level} {steps : List Step}
    (h : (e.walk pool options number level steps).fault = none) :
    ∃ placed, e.Placement pool options level steps placed := by
  induction steps generalizing number level with
  | nil => exact ⟨[], .nil level⟩
  | cons s rest ih =>
      rw [walk] at h
      cases hs : e.writeStep pool options s with
      | mk run result =>
          rw [hs] at h
          cases result with
          | error fault => simp at h
          | ok f =>
              obtain ⟨placed, hplaced⟩ := ih h
              exact ⟨_, .cons (by rw [hs]) hplaced⟩

/-- Steps can be placed at any level if they can be written at all. -/
theorem exists_placement_iff {level : Level} {steps : List Step} :
    (∃ placed, e.Placement pool options level steps placed) ↔
      ∀ s ∈ steps, ∃ f, (e.writeStep pool options s).2 = .ok f := by
  constructor
  · rintro ⟨placed, hplaced⟩ s hs
    rw [← hplaced.steps_eq] at hs
    obtain ⟨p, hp, rfl⟩ := List.mem_map.mp hs
    exact ⟨_, hplaced.written p hp⟩
  · intro h
    induction steps generalizing level with
    | nil => exact ⟨[], .nil level⟩
    | cons s rest ih =>
        obtain ⟨⟨f, hf⟩, hrest⟩ := List.forall_mem_cons.mp h
        obtain ⟨placed, hplaced⟩ := ih hrest
        exact ⟨_, .cons hf hplaced⟩

/-! ## Disabled steps -/

theorem disabledComment_ne_empty {s : Step} (hs : s.isDisabled = true) :
    (Registry.disabledComment s).isEmpty = false := by
  obtain ⟨rest, hrest⟩ := Text.startsWith_iff.mp hs
  rw [Bool.eq_false_iff, ne_eq, String.isEmpty_iff, ← String.toList_eq_nil_iff]
  simp [Registry.disabledComment, Text.oneLine, hrest]

/-- A disabled step is one line at the level that it meets, and leaves this level as it is. -/
theorem place_disabled {s : Step} (hs : s.isDisabled = true) (level : Level) :
    level.place (.statement (Registry.disabledComment s)) =
      ([⟨level.depth, Registry.disabledComment s⟩], level) := by
  have hdepth : ¬ (level.depth : Int) < 0 := by omega
  have hshift : level.shift 0 = level := by simp [Level.shift, hdepth]
  simp [Level.place, Fragment.lines, disabledComment_ne_empty hs, Fragment.before, Fragment.after,
    hshift, Line.raise]

theorem command_ne_run {s : Step} (hs : s.isDisabled = true) : s.command ≠ "run" := by
  intro hrun
  rw [Step.isDisabled, hrun] at hs
  contradiction

/-- A disabled step is written as one comment, whatever the registry holds. -/
theorem writeStep_disabled {s : Step} (hs : s.isDisabled = true) :
    e.writeStep pool options s = (none, .ok (.statement (Registry.disabledComment s))) := by
  apply writeStep_eq (command_ne_run hs)
  rw [Registry.emit, if_pos hs]

/-! ## The whole body -/

/-- The lines of a body with placed steps: two that head a traced one, and the steps between the
lines of the hooks. -/
def bodyLines (e : Exporter) (options : RenderOptions) (t : Test) (placed : List Placed) : List Line :=
  traceHead options t ++ (e.hooks.get .inEachBegin).render ++ placedLines options 1 placed ++
    (e.hooks.get .inEachEnd).render

theorem Placement.body_eq {t : Test} {placed : List Placed}
    (h : e.Placement pool options .start t.commands placed) :
    e.body pool options t = ⟨e.bodyLines options t placed, t.runs pool, t.opensWindow, none⟩ := by
  rw [body, h.walk_eq]
  rfl

theorem fault_eq_none_iff {t : Test} : (e.body pool options t).fault = none ↔
    ∃ placed, e.Placement pool options .start t.commands placed :=
  ⟨exists_placement, fun ⟨_, h⟩ => by rw [h.body_eq]⟩

/-- A body has no fault if each of its steps can be written. -/
theorem fault_eq_none_iff_written {t : Test} : (e.body pool options t).fault = none ↔
    ∀ s ∈ t.commands, ∃ f, (e.writeStep pool options s).2 = .ok f :=
  fault_eq_none_iff.trans exists_placement_iff

theorem runs_body {t : Test} (h : (e.body pool options t).fault = none) :
    (e.body pool options t).runs = t.runs pool := by
  obtain ⟨_, hplaced⟩ := fault_eq_none_iff.mp h
  rw [hplaced.body_eq]

theorem opensWindow_body {t : Test} (h : (e.body pool options t).fault = none) :
    (e.body pool options t).opensWindow = t.opensWindow := by
  obtain ⟨_, hplaced⟩ := fault_eq_none_iff.mp h
  rw [hplaced.body_eq]

/-- A step of a body without a fault that runs a test finds it. -/
theorem exists_findTestIndex? {t : Test} (h : (e.body pool options t).fault = none) {s : Step}
    (hs : s ∈ t.commands) (hrun : s.command = "run") : ∃ i, findTestIndex? pool s.target = some i := by
  obtain ⟨f, hf⟩ := fault_eq_none_iff_written.mp h s hs
  unfold writeStep at hf
  rw [if_pos hrun] at hf
  cases hfind : findTestIndex? pool s.target with
  | none => simp [hfind] at hf
  | some i => exact ⟨i, rfl⟩

end Exporter

end CestWriter
