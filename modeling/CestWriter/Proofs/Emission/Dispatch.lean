import CestWriter.Proofs.Emission.Registry
import CestWriter.Proofs.Table
import CestWriter.Proofs.Text.Bytes
import Mathlib.Data.List.Induction

/-! # The last registration counts

A registry is added to and asked in any order. What it answers depends on the last registration under
each name and on the commands that it began with, and never on what was asked in between. -/

namespace CestWriter

namespace Registry

/-! ## Registries in use -/

/-- What a registry is begun as. -/
inductive Start
  | empty
  | builtin

/-- A use of a registry. -/
inductive Call
  | register (name : String) (e : Emitter)
  | canEmit (name : String)
  | names
  | emit (setting : Setting) (s : Step)

inductive Answer
  /-- There is nothing to say. -/
  | done
  | verdict (known : Bool)
  | names (names : List String)
  | emission (result : Except EmitError Fragment)

def Start.registry : Start → Registry
  | empty => .empty
  | builtin => .builtin

/-- The registry after a call, and the answer to it. -/
def Call.run (r : Registry) : Call → Registry × Answer
  | register name e => (r.register name e, .done)
  | canEmit name => (r, .verdict (r.canEmit name))
  | names => (r, .names r.names)
  | emit setting s => (r, .emission (r.emit setting s))

/-- The registry after calls in a row, and the answers to them in order. -/
def run (r : Registry) : List Call → Registry × List Answer
  | [] => (r, [])
  | call :: rest =>
    let (next, answer) := call.run r
    let (last, answers) := run next rest
    (last, answer :: answers)

theorem run_append (r : Registry) (calls later : List Call) :
    run r (calls ++ later) = ((run (run r calls).1 later).1,
      (run r calls).2 ++ (run (run r calls).1 later).2) := by
  induction calls generalizing r with
  | nil => rfl
  | cons call calls ih => simp [run, ih]

theorem length_run (r : Registry) (calls : List Call) : (run r calls).2.length = calls.length := by
  induction calls generalizing r with
  | nil => rfl
  | cons call calls ih => simp [run, ih]

/-- A call is answered by the registry that the calls before it leave. -/
theorem getElem?_run (r : Registry) (before : List Call) (call : Call) (after : List Call) :
    (run r (before ++ call :: after)).2[before.length]? =
      some (call.run (run r before).1).2 := by
  rw [run_append, ← length_run r before, List.getElem?_append_right (Nat.le_refl _), Nat.sub_self]
  rfl

/-! ## What registrations leave -/

theorem emitter?_register (r : Registry) (name other : String) (e : Emitter) :
    (r.register name e).emitter? other = if other = name then some e else r.emitter? other :=
  Table.lookup_set name other e r.emitters

theorem emitter?_call (r : Registry) {name : String} {call : Call}
    (h : ∀ e, call ≠ .register name e) : (call.run r).1.emitter? name = r.emitter? name := by
  cases call with
  | register other e =>
      have hne : name ≠ other := fun he => h e (by rw [he])
      rw [Call.run, emitter?_register, if_neg hne]
  | _ => rfl

theorem emitter?_run (r : Registry) {name : String} {calls : List Call}
    (h : ∀ e, Call.register name e ∉ calls) : (run r calls).1.emitter? name = r.emitter? name := by
  induction calls generalizing r with
  | nil => rfl
  | cons call calls ih =>
      have hcall : ∀ e, call ≠ .register name e := fun e he => h e (he ▸ .head _)
      have hrest : ∀ e, Call.register name e ∉ calls := fun e hm => h e (.tail _ hm)
      exact (ih _ hrest).trans (emitter?_call r hcall)

/-- The names stay ascending, whatever is called. -/
theorem ascending_run {r : Registry} (h : Table.Ascending r.emitters) (calls : List Call) :
    Table.Ascending (run r calls).1.emitters := by
  induction calls generalizing r with
  | nil => exact h
  | cons call calls ih =>
      cases call with
      | register name e => exact ih (h.set name e)
      | _ => exact ih h

theorem Start.ascending_registry : (start : Start) → Table.Ascending start.registry.emitters
  | empty => .nil
  | builtin => Table.ascending_ofList _

theorem mem_names_iff {r : Registry} {name : String} : name ∈ r.names ↔ r.canEmit name = true :=
  Table.isSome_lookup_iff.symm

/-! ## Who writes a command -/

/-- The emitter of a command from the beginning. -/
def Start.emitter? (name : String) : Start → Option Emitter
  | empty => none
  | builtin => (Action.ofCommand? name).map Action.emitter

theorem Start.emitter?_registry (name : String) :
    (start : Start) → start.registry.emitter? name = start.emitter? name
  | empty => rfl
  | builtin => emitter?_builtin name

/-- What stands under a name after calls: the emitter that was registered last under exactly this
name, or what stood there from the beginning as long as none was. -/
inductive Standing (start : Start) (calls : List Call) (name : String) : Option Emitter → Prop
  | registered {before after : List Call} {e : Emitter} (h : calls = before ++ .register name e :: after)
    (hlast : ∀ e', Call.register name e' ∉ after) : Standing start calls name (some e)
  | initial (h : ∀ e, Call.register name e ∉ calls) : Standing start calls name (start.emitter? name)

variable {start : Start} {calls : List Call} {name : String}

theorem Standing.emitter?_eq {w : Option Emitter} (h : Standing start calls name w) :
    (run start.registry calls).1.emitter? name = w := by
  cases h with
  | @registered before after e h hlast =>
      rw [h, run_append, run, Call.run]
      simp only
      rw [emitter?_run _ hlast, emitter?_register, if_pos rfl]
  | initial h => rw [emitter?_run _ h, start.emitter?_registry]

theorem Standing.concat {w : Option Emitter} {call : Call} (h : Standing start calls name w)
    (hcall : ∀ e, call ≠ .register name e) : Standing start (calls ++ [call]) name w := by
  have hsame {later : List Call} (hlater : ∀ e, Call.register name e ∉ later) (e : Emitter) :
      Call.register name e ∉ later ++ [call] := fun hm => by
    rcases List.mem_append.mp hm with hm | hm
    · exact hlater e hm
    · exact hcall e (List.mem_singleton.mp hm).symm
  cases h with
  | @registered before after e h hlast =>
      have hsplit : calls ++ [call] = before ++ .register name e :: (after ++ [call]) := by
        rw [h, List.append_assoc]
        rfl
      exact .registered hsplit (hsame hlast)
  | initial h => exact .initial (hsame h)

theorem standing_emitter? (start : Start) (calls : List Call) (name : String) :
    Standing start calls name ((run start.registry calls).1.emitter? name) := by
  induction calls using List.reverseRecOn with
  | nil =>
      have hnone : ∀ e, Call.register name e ∉ [] := by simp
      rw [run, start.emitter?_registry]
      exact .initial hnone
  | append_singleton calls call ih =>
      rw [run_append]
      by_cases h : ∃ e, call = .register name e
      · obtain ⟨e, rfl⟩ := h
        simp only [run, Call.run, emitter?_register, if_true]
        exact .registered rfl (by simp)
      · have hcall : ∀ e, call ≠ .register name e := fun e he => h ⟨e, he⟩
        have hstay : (run (run start.registry calls).1 [call]).1.emitter? name =
            (run start.registry calls).1.emitter? name := emitter?_call _ hcall
        rw [hstay]
        exact ih.concat hcall

/-- One thing stands under a name, and the registry finds it. -/
theorem standing_iff {w : Option Emitter} :
    Standing start calls name w ↔ (run start.registry calls).1.emitter? name = w :=
  ⟨Standing.emitter?_eq, fun h => h ▸ standing_emitter? start calls name⟩

theorem canEmit_run_iff :
    (run start.registry calls).1.canEmit name = true ↔ ∃ e, Standing start calls name (some e) := by
  rw [canEmit, Option.isSome_iff_exists]
  exact exists_congr fun e => standing_iff.symm

/-! ## What steps are answered -/

/-- The ways in which a step is answered. -/
inductive Way
  | comment
  | unsupported
  | dispatched (e : Emitter)

/-- The answer to a step. An emitter is asked on one way alone, and the lines that await a window stand
around what it gives if the step opens one. -/
def Way.result (setting : Setting) (s : Step) : Way → Except EmitError Fragment
  | comment => .ok (.statement (disabledComment s))
  | unsupported => .error (.unknownCommand s.command)
  | dispatched e => (e setting s).map fun f => if s.opensWindow then Window.wrap s f else f

/-- The way that a step takes after calls. A disabled step becomes a comment, whatever stands under
its name. -/
inductive Taken (start : Start) (calls : List Call) (s : Step) : Way → Prop
  | comment (h : s.isDisabled = true) : Taken start calls s .comment
  | unsupported (h : s.isDisabled = false) (hnone : Standing start calls s.command none) :
    Taken start calls s .unsupported
  | dispatched {e : Emitter} (h : s.isDisabled = false)
    (hsome : Standing start calls s.command (some e)) : Taken start calls s (.dispatched e)

theorem Taken.emit_eq {s : Step} {way : Way} (h : Taken start calls s way) (setting : Setting) :
    (run start.registry calls).1.emit setting s = way.result setting s := by
  cases h with
  | comment h => rw [emit, if_pos h, Way.result]
  | unsupported h hnone => rw [emit, if_neg (by simp [h]), hnone.emitter?_eq, Way.result]
  | dispatched h hsome => rw [emit, if_neg (by simp [h]), hsome.emitter?_eq, Way.result]

theorem exists_taken (start : Start) (calls : List Call) (s : Step) :
    ∃ way, Taken start calls s way := by
  cases h : s.isDisabled with
  | true => exact ⟨_, .comment h⟩
  | false =>
      have hstanding := standing_emitter? start calls s.command
      cases hw : (run start.registry calls).1.emitter? s.command with
      | none => exact ⟨_, .unsupported h (hw ▸ hstanding)⟩
      | some e => exact ⟨_, .dispatched h (hw ▸ hstanding)⟩

theorem taken_unsupported_iff {s : Step} (h : s.isDisabled = false) :
    Taken start calls s .unsupported ↔ (run start.registry calls).1.canEmit s.command = false := by
  rw [canEmit, Option.isSome_eq_false_iff, Option.isNone_iff_eq_none]
  constructor
  · rintro (_ | ⟨-, hnone⟩)
    exact hnone.emitter?_eq
  · exact fun hnone => .unsupported h (standing_iff.mpr hnone)

/-! ## Whole runs -/

/-- What a call may be answered after other calls. -/
inductive Answers (start : Start) (before : List Call) : Call → Answer → Prop
  | register (name : String) (e : Emitter) : Answers start before (.register name e) .done
  | canEmit {name : String} {known : Bool}
    (h : known = true ↔ ∃ e, Standing start before name (some e)) :
    Answers start before (.canEmit name) (.verdict known)
  | names {names : List String} (hascending : names.Pairwise fun n n' => Text.bytes n < Text.bytes n')
    (h : ∀ name, name ∈ names ↔ ∃ e, Standing start before name (some e)) :
    Answers start before .names (.names names)
  | emit {s : Step} {way : Way} (setting : Setting) (h : Taken start before s way) :
    Answers start before (.emit setting s) (.emission (way.result setting s))

theorem pairwise_names {r : Registry} (h : Table.Ascending r.emitters) :
    r.names.Pairwise fun n n' => Text.bytes n < Text.bytes n' :=
  List.pairwise_map.mpr (h.imp Text.bytes_lt_of_lt)

theorem answers_call (start : Start) (before : List Call) (call : Call) :
    Answers start before call (call.run (run start.registry before).1).2 := by
  cases call with
  | register name e => exact .register name e
  | canEmit name => exact .canEmit canEmit_run_iff
  | names =>
      have hascending := ascending_run start.ascending_registry before
      exact .names (pairwise_names hascending) fun name => mem_names_iff.trans canEmit_run_iff
  | emit setting s =>
      obtain ⟨way, hway⟩ := exists_taken start before s
      rw [Call.run, hway.emit_eq setting]
      exact .emit setting hway

/-- Nothing changes for other names when an emitter is registered. -/
theorem emit_register {r : Registry} {e : Emitter} {s : Step} (h : s.command ≠ name)
    (setting : Setting) : (r.register name e).emit setting s = r.emit setting s := by
  rw [emit, emit, emitter?_register, if_neg h]

/-- In every run the last registration under a name counts: each call is answered by what stands under
the names after the calls before it. After a run a command can be emitted just if a step with it does not
take the unsupported way, the names are those that can be emitted, and to register a name changes
nothing for the others. -/
theorem last_registration_counts (start : Start) (calls : List Call) :
    (∀ before call after, calls = before ++ call :: after →
      ∃ a, (run start.registry calls).2[before.length]? = some a ∧ Answers start before call a) ∧
    (∀ s : Step, s.isDisabled = false → ((run start.registry calls).1.canEmit s.command = true ↔
      ¬ Taken start calls s .unsupported)) ∧
    (∀ name, name ∈ (run start.registry calls).1.names ↔
      (run start.registry calls).1.canEmit name = true) ∧
    ∀ name e other, other ≠ name →
      ((run start.registry calls).1.register name e).canEmit other =
        (run start.registry calls).1.canEmit other ∧
      ∀ setting (s : Step), s.command = other →
        ((run start.registry calls).1.register name e).emit setting s =
          (run start.registry calls).1.emit setting s := by
  refine ⟨?_, fun s hs => ?_, fun name => mem_names_iff, fun name e other hother => ⟨?_, ?_⟩⟩
  · rintro before call after rfl
    exact ⟨_, getElem?_run _ before call after, answers_call start before call⟩
  · rw [taken_unsupported_iff hs, Bool.not_eq_false]
  · rw [canEmit, canEmit, emitter?_register, if_neg hother]
  · rintro setting s rfl
    exact emit_register hother setting

/-- A command registered twice and one with a name that disables it. -/
theorem last_registration_counts_of_hello :
    let echo : Emitter := fun _ s => .ok (.statement s.target)
    let refuse : Emitter := fun _ s => .error (.failure s.target)
    let setting : Setting := ⟨"", .webDriver⟩
    let hello : Step := { Step.blank with command := "hello", target := "world" }
    let before : List Call :=
      [.register "hello" refuse, .register "hello" echo, .register "//hello" refuse]
    let calls := before ++ [.emit setting hello]
    (∃ a, (run Start.empty.registry calls).2[3]? = some a ∧
      Answers .empty before (.emit setting hello) a) ∧
    ¬ Taken .empty calls hello .unsupported ∧
    (run Start.empty.registry calls).1.names = ["//hello", "hello"] ∧
    ((run Start.empty.registry calls).1.register "//hello" echo).canEmit "hello" = true := by
  intro echo refuse setting hello before calls
  obtain ⟨hanswers, hunsupported, hnames, hothers⟩ := last_registration_counts .empty calls
  have hknown : (run Start.empty.registry calls).1.canEmit "hello" = true := rfl
  refine ⟨hanswers before _ [] rfl, (hunsupported hello (by decide)).mp hknown, rfl, ?_⟩
  rw [(hothers "//hello" echo "hello" (by decide)).1]
  exact (hnames "hello").mp (by decide)

end Registry

end CestWriter
