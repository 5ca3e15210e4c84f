import CestWriter.Proofs.Json.Records
import CestWriter.Recording.Shape

/-! # Spellings of recorded tests -/

namespace CestWriter

open Json (Faithful Lossless Spelling)
open Json.Record (of_field)

/-! ## Steps -/

namespace Step

/-- A time to wait fits 64 bits. -/
def InRange (s : Step) : Prop :=
  ∀ n, s.windowTimeout = some n → n ≤ Number.limit64

def parts : List (Json.Part Step) := [
  Spelling.string.part "id" (·.id), Spelling.string.part "comment" (·.comment),
  Spelling.string.part "command" (·.command), Spelling.string.part "target" (·.target),
  (Spelling.list (.list .string)).part "targets" (·.targets),
  Spelling.string.part "value" (·.value), Spelling.bool.part "opensWindow" (·.opensWindow),
  Spelling.string.part "windowHandleName" (·.windowHandleName),
  (Spelling.option .unsigned64).part "windowTimeout" (·.windowTimeout)]

def spelling : Spelling Step :=
  .record .blank parts

theorem faithful : Faithful shape.codec spelling InRange := by
  refine Json.Record.faithful ?_ (by decide) ?_
  · exact .cons (Faithful.string.field (fun _ _ => rfl) (by simp [parts, Spelling.part]) (by simp))
      (.cons (Faithful.string.field (fun _ _ => rfl) (by simp [parts, Spelling.part]) (by simp))
      (.cons (Faithful.string.field (fun _ _ => rfl) (by simp [parts, Spelling.part]) (by simp))
      (.cons (Faithful.string.field (fun _ _ => rfl) (by simp [parts, Spelling.part]) (by simp))
      (.cons (Faithful.string.list.list.field (fun _ _ => rfl) (by simp [parts, Spelling.part]) (by simp))
      (.cons (Faithful.string.field (fun _ _ => rfl) (by simp [parts, Spelling.part]) (by simp))
      (.cons (Faithful.bool.field (fun _ _ => rfl) (by simp [parts, Spelling.part]) (by simp))
      (.cons (Faithful.string.field (fun _ _ => rfl) (by simp [parts, Spelling.part]) (by simp))
      (.cons ((Faithful.unsigned64.option fun _ => Json.Draft.noConfusion).field (fun _ _ => rfl)
        (by simp [parts, Spelling.part]) fun h => h) .nil))))))))
  · intro x y h
    simp only [parts, Spelling.part, List.forall_mem_cons] at h
    cases x
    cases y
    simpa using h

theorem lossless_write {s : Step} (h : s.InRange) : Lossless 3 (shape.write s) := by
  refine Json.Record.lossless_write ?_
  simp only [shape, List.forall_mem_cons, List.not_mem_nil, false_imp_iff, implies_true, and_true]
  have hstrings : Lossless 2 (Json.Codec.strings.list.write s.targets) :=
    Json.lossless_ofList fun _ _ => Json.lossless_ofList fun _ _ => .string _
  exact ⟨of_field (.string _), of_field (.string _), of_field (.string _),
    of_field (.string _), of_field hstrings, of_field (.string _), of_field (.bool _),
    of_field (.string _), of_field (Json.lossless_ofOption fun n hn => .ofNat (h n hn))⟩

end Step

/-! ## Tests -/

namespace Test

def InRange (t : Test) : Prop :=
  ∀ s ∈ t.commands, s.InRange

def parts : List (Json.Part Test) := [
  Spelling.string.part "id" (·.id), Spelling.string.part "name" (·.name),
  (Spelling.list Step.spelling).part "commands" (·.commands)]

def spelling : Spelling Test :=
  .record .blank parts

theorem faithful : Faithful shape.codec spelling InRange := by
  refine Json.Record.faithful ?_ (by decide) ?_
  · exact .cons (Faithful.string.field (fun _ _ => rfl) (by simp [parts, Spelling.part]) (by simp))
      (.cons (Faithful.string.field (fun _ _ => rfl) (by simp [parts, Spelling.part]) (by simp))
      (.cons (Step.faithful.list.field (fun _ _ => rfl) (by simp [parts, Spelling.part]) fun h => h)
      .nil))
  · intro x y h
    simp only [parts, Spelling.part, List.forall_mem_cons] at h
    cases x
    cases y
    simpa using h

theorem lossless_write {t : Test} (h : t.InRange) : Lossless 5 (shape.write t) := by
  refine Json.Record.lossless_write ?_
  simp only [shape, List.forall_mem_cons, List.not_mem_nil, false_imp_iff, implies_true, and_true]
  have hcommands : Lossless 4 (Step.shape.codec.list.write t.commands) :=
    Json.lossless_ofList fun s hs => Step.lossless_write (h s hs)
  exact ⟨of_field (.string _), of_field (.string _), of_field hcommands⟩

end Test

/-! ## Suites -/

namespace Suite

def InRange (s : Suite) : Prop :=
  ∀ n, s.timeout = some n → n ≤ Number.limit64

def parts : List (Json.Part Suite) := [
  Spelling.string.part "id" (·.id), Spelling.string.part "name" (·.name),
  Spelling.bool.part "persistSession" (·.persistSession), Spelling.bool.part "parallel" (·.parallel),
  (Spelling.option .unsigned64).part "timeout" (·.timeout),
  (Spelling.list .string).part "tests" (·.tests)]

def spelling : Spelling Suite :=
  .record .blank parts

theorem faithful : Faithful shape.codec spelling InRange := by
  refine Json.Record.faithful ?_ (by decide) ?_
  · exact .cons (Faithful.string.field (fun _ _ => rfl) (by simp [parts, Spelling.part]) (by simp))
      (.cons (Faithful.string.field (fun _ _ => rfl) (by simp [parts, Spelling.part]) (by simp))
      (.cons (Faithful.bool.field (fun _ _ => rfl) (by simp [parts, Spelling.part]) (by simp))
      (.cons (Faithful.bool.field (fun _ _ => rfl) (by simp [parts, Spelling.part]) (by simp))
      (.cons ((Faithful.unsigned64.option fun _ => Json.Draft.noConfusion).field (fun _ _ => rfl)
        (by simp [parts, Spelling.part]) fun h => h)
      (.cons (Faithful.string.list.field (fun _ _ => rfl) (by simp [parts, Spelling.part]) (by simp))
      .nil)))))
  · intro x y h
    simp only [parts, Spelling.part, List.forall_mem_cons] at h
    cases x
    cases y
    simpa using h

theorem lossless_write {s : Suite} (h : s.InRange) : Lossless 2 (shape.write s) := by
  refine Json.Record.lossless_write ?_
  simp only [shape, List.forall_mem_cons, List.not_mem_nil, false_imp_iff, implies_true, and_true]
  exact ⟨of_field (.string _), of_field (.string _), of_field (.bool _),
    of_field (.bool _), of_field (Json.lossless_ofOption fun n hn => .ofNat (h n hn)),
    of_field (Json.lossless_ofList fun _ _ => .string _)⟩

end Suite

/-! ## Projects -/

namespace Project

def InRange (p : Project) : Prop :=
  (∀ t ∈ p.tests, t.InRange) ∧ ∀ s ∈ p.suites, s.InRange

def parts : List (Json.Part Project) := [
  Spelling.string.part "id" (·.id), Spelling.string.part "version" (·.version),
  Spelling.string.part "name" (·.name), Spelling.string.part "url" (·.url),
  (Spelling.list Test.spelling).part "tests" (·.tests),
  (Spelling.list Suite.spelling).part "suites" (·.suites),
  (Spelling.list .string).part "urls" (·.urls)]

def spelling : Spelling Project :=
  .record .blank parts

theorem faithful : Faithful shape.codec spelling InRange := by
  refine Json.Record.faithful ?_ (by decide) ?_
  · exact .cons (Faithful.string.field (fun _ _ => rfl) (by simp [parts, Spelling.part]) (by simp))
      (.cons (Faithful.string.field (fun _ _ => rfl) (by simp [parts, Spelling.part]) (by simp))
      (.cons (Faithful.string.field (fun _ _ => rfl) (by simp [parts, Spelling.part]) (by simp))
      (.cons (Faithful.string.field (fun _ _ => rfl) (by simp [parts, Spelling.part]) (by simp))
      (.cons (Test.faithful.list.field (fun _ _ => rfl) (by simp [parts, Spelling.part]) And.left)
      (.cons (Suite.faithful.list.field (fun _ _ => rfl) (by simp [parts, Spelling.part]) And.right)
      (.cons (Faithful.string.list.field (fun _ _ => rfl) (by simp [parts, Spelling.part]) (by simp))
      .nil))))))
  · intro x y h
    simp only [parts, Spelling.part, List.forall_mem_cons] at h
    cases x
    cases y
    simpa using h

theorem lossless_write {p : Project} (h : p.InRange) : Lossless 7 (shape.write p) := by
  refine Json.Record.lossless_write ?_
  simp only [shape, List.forall_mem_cons, List.not_mem_nil, false_imp_iff, implies_true, and_true]
  have htests : Lossless 6 (Test.shape.codec.list.write p.tests) :=
    Json.lossless_ofList fun t ht => Test.lossless_write (h.1 t ht)
  have hsuites : Lossless 3 (Suite.shape.codec.list.write p.suites) :=
    Json.lossless_ofList fun s hs => Suite.lossless_write (h.2 s hs)
  exact ⟨of_field (.string _), of_field (.string _), of_field (.string _),
    of_field (.string _), of_field htests, of_field (hsuites.mono (by decide)),
    of_field (Json.lossless_ofList fun _ _ => .string _)⟩

end Project

end CestWriter
