import CestWriter.Exchange.Request
import CestWriter.Proofs.Recording.Spellings
import CestWriter.Settings

/-! # What is written is read back

Recorded tests, options, settings and requests come back as they were, from what is written and from
every other spelling of it. -/

namespace CestWriter

open Json (Faithful FieldFaithful IsText Lossless Record Spelling)
open Json.Record (of_field of_optional)

/-! ## Options -/

namespace RenderOptions

def parts : List (Json.Part RenderOptions) := [
  Spelling.string.part "baseUrl" (·.baseUrl), Spelling.bool.part "originTracing" (·.originTracing),
  Spelling.bool.part "descriptionComments" (·.descriptionComments)]

def spelling : Spelling RenderOptions :=
  .record ⟨"", false, false⟩ parts

theorem faithful : Faithful shape.codec spelling fun _ => True := by
  refine Json.Record.faithful ?_ (by decide) ?_
  · exact .cons (Faithful.string.field (fun _ _ => rfl) (by simp [parts, Spelling.part]) (by simp))
      (.cons (Faithful.bool.field (fun _ _ => rfl) (by simp [parts, Spelling.part]) (by simp))
      (.cons (Faithful.bool.field (fun _ _ => rfl) (by simp [parts, Spelling.part]) (by simp)) .nil))
  · intro x y h
    simp only [parts, Spelling.part, List.forall_mem_cons] at h
    cases x
    cases y
    simpa using h

end RenderOptions

/-! ## Settings -/

namespace Settings

def InRange (s : Settings) : Prop :=
  ∀ n, s.healthInterval = some n → n ≤ Number.limit64

def parts : List (Json.Part Settings) := [
  (Spelling.option .string).part "default_base_url" (·.defaultBaseUrl),
  (Spelling.option .string).part "host_socket" (·.hostSocket),
  (Spelling.option .unsigned64).part "health_interval_ms" (·.healthInterval)]

def spelling : Spelling Settings :=
  .record .blank parts

theorem faithful : Faithful shape.codec spelling InRange := by
  refine Json.Record.faithful ?_ (by decide) ?_
  · exact .cons (Faithful.string.optional (fun _ => Json.Draft.noConfusion) (fun _ _ => rfl)
        (by simp [parts, Spelling.part]) (by simp) rfl)
      (.cons (Faithful.string.optional (fun _ => Json.Draft.noConfusion) (fun _ _ => rfl)
        (by simp [parts, Spelling.part]) (by simp) rfl)
      (.cons (Faithful.unsigned64.optional (fun _ => Json.Draft.noConfusion) (fun _ _ => rfl)
        (by simp [parts, Spelling.part]) (fun h => h) rfl) .nil))
  · intro x y h
    simp only [parts, Spelling.part, List.forall_mem_cons] at h
    cases x
    cases y
    simpa using h

theorem lossless_write {s : Settings} (h : s.InRange) : Lossless 1 (shape.write s) := by
  refine Json.Record.lossless_write ?_
  simp only [shape, List.forall_mem_cons, List.not_mem_nil, false_imp_iff, implies_true, and_true]
  exact ⟨of_optional fun _ _ => .string _, of_optional fun _ _ => .string _,
    of_optional fun n hn => .ofNat (h n hn)⟩

/-- Saved settings are found again. -/
theorem ofText_text {s : Settings} (h : s.InRange) : ofText (some s.text) = s := by
  have hread := Json.Record.ofText?_write faithful.reads (faithful.spells h)
    ((lossless_write h).mono (by decide)) (Json.isText_renderPretty (shape.write s) 0)
  rw [ofText, text, Option.bind_some, hread]
  rfl

end Settings

/-! ## Requests -/

namespace ExportRequest

def InRange (r : ExportRequest) : Prop :=
  (∀ t, r.test = some t → t.InRange) ∧ (∀ s, r.suite = some s → s.InRange) ∧
    (∀ t ∈ r.tests, t.InRange) ∧ ∀ p, r.project = some p → p.InRange

/-- The browser settings are a value that stands in memory and can be told from none. -/
def KeepsOptions (r : ExportRequest) : Prop :=
  ∀ v, r.beforeEachOptions = some v → v.Ordered ∧ v ≠ .null

def parts : List (Json.Part ExportRequest) := [
  Spelling.string.part "url" (·.url), (Spelling.option Test.spelling).part "test" (·.test),
  (Spelling.option Suite.spelling).part "suite" (·.suite),
  (Spelling.list Test.spelling).part "tests" (·.tests),
  (Spelling.option Project.spelling).part "project" (·.project),
  Spelling.bool.part "enableOriginTracing" (·.enableOriginTracing),
  Spelling.bool.part "enableDescriptionAsComment" (·.enableDescriptionAsComment),
  (Spelling.option .any).part "beforeEachOptions" (·.beforeEachOptions)]

def spelling : Spelling ExportRequest :=
  .record ⟨"", none, none, [], none, false, false, none⟩ parts

/-- All fields but the browser settings hold nothing but recorded data. -/
theorem recorded_faithful : List.Forall₂ (FieldFaithful shape.blank parts InRange)
    shape.fields.dropLast parts.dropLast :=
  .cons (Faithful.string.field (fun _ _ => rfl) (by simp [parts, Spelling.part]) (by simp))
    (.cons ((Test.faithful.option fun _ => Test.shape.write_ne_null _).field (fun _ _ => rfl)
      (by simp [parts, Spelling.part]) fun h => h.1)
    (.cons ((Suite.faithful.option fun _ => Suite.shape.write_ne_null _).field (fun _ _ => rfl)
      (by simp [parts, Spelling.part]) fun h => h.2.1)
    (.cons (Test.faithful.list.field (fun _ _ => rfl) (by simp [parts, Spelling.part]) fun h => h.2.2.1)
    (.cons ((Project.faithful.option fun _ => Project.shape.write_ne_null _).field (fun _ _ => rfl)
      (by simp [parts, Spelling.part]) fun h => h.2.2.2)
    (.cons (Faithful.bool.field (fun _ _ => rfl) (by simp [parts, Spelling.part]) (by simp))
    (.cons (Faithful.bool.field (fun _ _ => rfl) (by simp [parts, Spelling.part]) (by simp)) .nil))))))

theorem options_faithful : FieldFaithful shape.blank parts KeepsOptions
    (Json.Codec.any.option.field "beforeEachOptions" (·.beforeEachOptions)
      fun x v => { x with beforeEachOptions := v })
    ((Spelling.option .any).part "beforeEachOptions" (·.beforeEachOptions)) := by
  have hnull {v : Json} (h : v.Ordered ∧ v ≠ .null) : v.draft ≠ .null := by
    cases v with
    | null => exact absurd rfl h.2
    | _ => exact Json.Draft.noConfusion
  exact (Faithful.any.option hnull).field (fun _ _ => rfl) (by simp [parts, Spelling.part]) fun h => h

theorem ext_parts {x y : ExportRequest} (h : ∀ p ∈ parts, p.get x = p.get y) : x = y := by
  simp only [parts, Spelling.part, List.forall_mem_cons] at h
  cases x
  cases y
  simpa using h

theorem faithful : Faithful shape.codec spelling fun r => r.InRange ∧ r.KeepsOptions := by
  refine Json.Record.faithful ?_ (by decide) ext_parts
  exact List.rel_append (recorded_faithful.imp fun _ _ h => h.mono fun _ hr => hr.1)
    (.cons (options_faithful.mono fun _ hr => hr.2) .nil)

end ExportRequest

/-! ## Round trips -/

/-- What is written for `x` is decoded to `x`, and so is every other spelling of `x`. -/
structure RoundTrips {σ : Type} (r : Record σ) (s : Spelling σ) (P : σ → Prop) : Prop where
  decode_write : ∀ x, P x → r.decode (r.write x) = .ok x
  spells_write : ∀ x, P x → s x (r.write x).draft
  read_spelling : ∀ x d, s x d → r.read d = .ok x

theorem roundTrips_of_faithful {σ : Type} {r : Record σ} {s : Spelling σ} {P : σ → Prop}
    (h : Faithful r.codec s P) : RoundTrips r s P where
  decode_write := fun _ hx => h.reads (h.spells hx)
  spells_write := fun _ hx => h.spells hx
  read_spelling := fun _ _ hx => h.reads hx

/-- Recorded tests, options, settings and requests all come back from JSON as they were. -/
theorem recorded_data_round_trips :
    RoundTrips Step.shape Step.spelling Step.InRange ∧
    RoundTrips Test.shape Test.spelling Test.InRange ∧
    RoundTrips Suite.shape Suite.spelling Suite.InRange ∧
    RoundTrips Project.shape Project.spelling Project.InRange ∧
    RoundTrips RenderOptions.shape RenderOptions.spelling (fun _ => True) ∧
    RoundTrips Settings.shape Settings.spelling Settings.InRange ∧
    RoundTrips ExportRequest.shape ExportRequest.spelling (fun r => r.InRange ∧ r.KeepsOptions) ∧
    ∀ s : Settings, s.InRange → Settings.ofText (some s.text) = s :=
  ⟨roundTrips_of_faithful Step.faithful, roundTrips_of_faithful Test.faithful,
    roundTrips_of_faithful Suite.faithful, roundTrips_of_faithful Project.faithful,
    roundTrips_of_faithful RenderOptions.faithful, roundTrips_of_faithful Settings.faithful,
    roundTrips_of_faithful ExportRequest.faithful, fun _ hs => Settings.ofText_text hs⟩

/-- A project with a field of its own kind in front and a test written as an array. -/
theorem login_project_read :
    Project.shape.read (.object [("plugins", .array [.unusable]),
        ("tests", .array [.array [.string "t1", .string "login", .array []]])]) =
      .ok { Project.blank with tests := [⟨"t1", "login", []⟩] } ∧
    Project.shape.decode (Project.shape.write { Project.blank with tests := [⟨"t1", "login", []⟩] }) =
      .ok { Project.blank with tests := [⟨"t1", "login", []⟩] } := by
  have htest : Test.spelling ⟨"t1", "login", []⟩ (.array [.string "t1", .string "login", .array []]) :=
    .array (.cons (.mk _) (.cons (.mk _) (.cons (.mk .nil) .nil)))
  have hrange : Project.InRange { Project.blank with tests := [⟨"t1", "login", []⟩] } := by
    simp [Project.InRange, Test.InRange, Project.blank]
  refine ⟨recorded_data_round_trips.2.2.2.1.read_spelling _ _ (.object ?_),
    recorded_data_round_trips.2.2.2.1.decode_write _ hrange⟩
  simp only [Project.parts, List.forall_mem_cons, List.not_mem_nil, false_imp_iff, implies_true,
    and_true]
  exact ⟨.omitted rfl, .omitted rfl, .omitted rfl, .omitted rfl, .given (.mk (.cons htest .nil)),
    .omitted rfl, .omitted rfl⟩

end CestWriter
