import CestWriter.Emission.Registry
import CestWriter.Proofs.Emission.Composition

/-! # What the built-in registry writes

Looking a command up in the registry gives the action of the command table, and every enabled step
is written after a template of its action. -/

namespace CestWriter

/-! ## Tables -/

namespace Table

variable {α β : Type}

theorem lookup_cons (n name : String) (v : α) (rest : List (String × α)) :
    ((n, v) :: rest).lookup name = if name = n then some v else rest.lookup name := by
  by_cases h : name = n
  · simp [h]
  · have hb : (name == n) = false := by simpa using h
    rw [List.lookup_cons, hb, if_neg h]

theorem lookup_set (name other : String) (value : α) (table : List (String × α)) :
    (set name value table).lookup other =
      if other = name then some value else table.lookup other := by
  induction table with
  | nil => exact lookup_cons name other value []
  | cons entry rest ih =>
      obtain ⟨n, v⟩ := entry
      rw [set]
      split
      · rw [lookup_cons]
      · split
        · rename_i heq
          subst heq
          by_cases h : other = name <;> simp [lookup_cons, h]
        · rename_i hne
          rw [lookup_cons, lookup_cons, ih]
          by_cases h : other = n
          · have : other ≠ name := fun he => hne (he ▸ h)
            simp [h, h ▸ this]
          · simp [h]

/-- Without a repeated name, setting the pairs one by one keeps every pair. -/
theorem lookup_foldl_set {pairs : List (String × α)} (hp : (pairs.map (·.1)).Nodup)
    (table : List (String × α)) (name : String) :
    (pairs.foldl (fun table (n, v) => set n v table) table).lookup name =
      (pairs.lookup name).or (table.lookup name) := by
  induction pairs generalizing table with
  | nil => simp
  | cons entry rest ih =>
      obtain ⟨n, v⟩ := entry
      rw [List.map_cons, List.nodup_cons] at hp
      obtain ⟨hfresh, hrest⟩ := hp
      rw [List.foldl_cons, ih hrest, lookup_set, lookup_cons]
      by_cases h : name = n
      · subst h
        have hnone : rest.lookup name = none := by
          rw [List.lookup_eq_none_iff]
          intro other hm
          have hne : name ≠ other.1 := fun he => hfresh (he ▸ List.mem_map.mpr ⟨other, hm, rfl⟩)
          simpa using hne
        simp [hnone]
      · simp [h]

theorem lookup_ofList {pairs : List (String × α)} (hp : (pairs.map (·.1)).Nodup) (name : String) :
    (ofList pairs).lookup name = pairs.lookup name := by
  rw [ofList, lookup_foldl_set hp]
  simp

theorem lookup_map (f : α → β) (pairs : List (String × α)) (name : String) :
    (pairs.map fun (n, v) => (n, f v)).lookup name = (pairs.lookup name).map f := by
  induction pairs with
  | nil => rfl
  | cons entry rest ih =>
      obtain ⟨n, v⟩ := entry
      rw [List.map_cons, lookup_cons, lookup_cons, ih]
      by_cases h : name = n <;> simp [h]

end Table

/-! ## The built-in registry -/

theorem Action.nodup_table : (Action.table.map (·.1)).Nodup := by
  decide +kernel

theorem Action.mem_table_of_ofCommand? {command : String} {a : Action}
    (h : ofCommand? command = some a) : (command, a) ∈ table := by
  obtain ⟨before, after, htable, -⟩ := List.lookup_eq_some_iff.mp h
  rw [htable]
  exact List.mem_append_right _ (.head _)

namespace Registry

variable {H : Holes} {setting : Setting} {s : Step} {f : Fragment}

theorem emitter?_builtin (name : String) :
    builtin.emitter? name = (Action.ofCommand? name).map Action.emitter := by
  rw [emitter?, builtin, Table.lookup_ofList, Table.lookup_map]
  · rfl
  · rw [List.map_map]
    exact Action.nodup_table

/-- What a step with a given command is written as. -/
theorem emit_builtin_of_command {command : String} {a : Action} (hs : s.command = command)
    (henabled : Text.startsWith "//" command = false) (ha : Action.ofCommand? command = some a) :
    builtin.emit setting s = ((a.compose setting s).map Form.render).map fun f =>
      if s.opensWindow then Window.wrap s f else f := by
  subst hs
  simp only [emit, Step.isDisabled, henabled, Bool.false_eq_true, if_false, emitter?_builtin, ha,
    Option.map_some, Action.emitter]

/-- An enabled step is written as its action composes it, inside of the lines that await a window
if it opens one. -/
theorem emit_builtin_eq_ok_iff (hs : s.isDisabled = false) :
    builtin.emit setting s = .ok f ↔ ∃ a form, Action.ofCommand? s.command = some a ∧
      a.compose setting s = .ok form ∧
      f = if s.opensWindow then Window.wrap s form.render else form.render := by
  simp only [emit, hs, Bool.false_eq_true, if_false, emitter?_builtin]
  cases Action.ofCommand? s.command with
  | none => simp
  | some a =>
      simp only [Option.map_some, Action.emitter, Option.some.injEq, exists_and_left,
        exists_eq_left']
      cases a.compose setting s with
      | error e => simp [Except.map]
      | ok form =>
          simp only [Except.map, Except.ok.injEq, exists_eq_left']
          exact eq_comm

/-- A step is written just where its action can be composed. -/
theorem exists_emit_builtin_iff {a : Action} (hs : s.isDisabled = false)
    (ha : Action.ofCommand? s.command = some a) :
    (∃ f, builtin.emit setting s = .ok f) ↔ ∃ form, a.compose setting s = .ok form := by
  simp only [emit_builtin_eq_ok_iff hs, ha, Option.some.injEq]
  constructor
  · rintro ⟨_, _, form, rfl, hform, -⟩
    exact ⟨form, hform⟩
  · rintro ⟨form, hform⟩
    exact ⟨_, a, form, rfl, hform, rfl⟩

/-- The lines that the action is composed of are among the lines of the step. -/
theorem exists_emit_builtin {a : Action} {form : Form} (hs : s.isDisabled = false)
    (ha : Action.ofCommand? s.command = some a) (hform : a.compose setting s = .ok form) :
    ∃ f, builtin.emit setting s = .ok f ∧ ∀ l ∈ form.render.lines, l ∈ f.lines := by
  refine ⟨_, (emit_builtin_eq_ok_iff hs).mpr ⟨a, form, ha, hform, rfl⟩, fun l hl => ?_⟩
  split
  · exact List.mem_append_left _ (List.mem_append_right _ hl)
  · exact hl

end Registry

/-! ## Steps that open a window -/

theorem Window.wrap_follows {H : Holes} {s : Step} {f : Fragment} {t : Template}
    (hhandles : H.name "windowHandles") (hn : H.name s.windowHandleName) (h : f.Follows H t) :
    ∃ u ∈ t.windowed, (wrap s f).Follows H u := by
  have hnote : Follows H [.slot "windowHandles", .code " = $driver->getWindowHandles();"]
      [.slot, .code " = $driver->getWindowHandles();"] :=
    .slot hhandles (.code .nil)
  have hsnapshot := Form.flat_follows (FollowAll.withDriver (.cons hnote .nil) : FollowAll H
    (Form.withDriver none _) (Row.withDriver none _))
  have hwait : Follows H [.code "$this->waitForWindow($i, ", .int s.windowWait, .code ")"]
      [.code "$this->waitForWindow($i, ", .integer, .code ")"] :=
    .code (.int (.code .nil))
  cases hne : s.windowHandleName.isEmpty with
  | true =>
      refine ⟨_, .head _, h.before, h.after, ?_⟩
      refine List.rel_append (List.rel_append hsnapshot.lines h.lines) (.cons ⟨rfl, ?_⟩ .nil)
      exact ⟨_, by simp [await, hne], hwait.append (.code .nil)⟩
  | false =>
      refine ⟨_, .tail _ (.head _), h.before, h.after, ?_⟩
      refine List.rel_append (List.rel_append hsnapshot.lines h.lines) (.cons ⟨rfl, ?_⟩ .nil)
      exact ⟨_, by simp [await, hne], .assign hn hne hwait⟩

/-- The arguments of a step that are taken as names of variables. -/
def Step.names (s : Step) : List String :=
  ((Action.ofCommand? s.command).elim [] (Action.rawNames s)) ++
    if s.opensWindow then [s.windowHandleName] else []

/-- The templates of a step that stands for an action. -/
def Action.stepTemplates (a : Action) (s : Step) : List Template :=
  if s.opensWindow then a.templates.flatMap Template.windowed else a.templates

/-- An enabled step is written after a template of its action, unless it is a script that reports
back. -/
theorem Registry.emit_builtin_follows {H : Holes} {setting : Setting} {s : Step} {f : Fragment}
    (hw : H.Admits setting.locators) (hhandles : H.name "windowHandles")
    (hs : s.isDisabled = false) (hasync : Action.ofCommand? s.command ≠ some .executeAsyncScript)
    (hn : ∀ name ∈ s.names, H.name name) (h : builtin.emit setting s = .ok f) :
    ∃ a, Action.ofCommand? s.command = some a ∧ ∃ t ∈ a.stepTemplates s, f.Follows H t := by
  obtain ⟨a, form, ha, hform, rfl⟩ := (emit_builtin_eq_ok_iff hs).mp h
  have hne : a ≠ .executeAsyncScript := fun he => hasync (he ▸ ha)
  have hraw : ∀ name ∈ a.rawNames s, H.name name := fun name hm =>
    hn name (by simp [Step.names, ha, hm])
  obtain ⟨t, ht, hf⟩ := Action.compose_follows hw hraw hne hform
  refine ⟨a, ha, ?_⟩
  cases ho : s.opensWindow with
  | false => exact ⟨t, by simpa [Action.stepTemplates, ho] using ht, by simpa using hf⟩
  | true =>
      have hhandle := hn s.windowHandleName (by simp [Step.names, ho])
      obtain ⟨u, hu, hf⟩ := Window.wrap_follows (s := s) hhandles hhandle hf
      refine ⟨u, ?_, by simpa using hf⟩
      simpa [Action.stepTemplates, ho] using ⟨t, ht, hu⟩

end CestWriter
