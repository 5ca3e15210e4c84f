import CestWriter.Proofs.Recording.Runs

/-! # One step more

Tests may change in what they do without any other test noticing, as long as each keeps its id, its
name and the tests that it runs. A test that is given one disabled step more is such a change. -/

namespace CestWriter

/-! ## Changes that other tests do not notice -/

/-- A change of tests that keeps how they are found and which tests they run. -/
structure KeepsRuns (f : Test → Test) : Prop where
  id_eq : ∀ t, (f t).id = t.id
  name_eq : ∀ t, (f t).name = t.name
  runs_eq : ∀ pool t, (f t).runs pool = t.runs pool

namespace KeepsRuns

variable {f : Test → Test} {pool members : List Test} {i : Nat}

theorem findTestIndex?_map (h : KeepsRuns f) (pool : List Test) :
    findTestIndex? (pool.map f) = findTestIndex? pool := by
  funext key
  simp only [findTestIndex?, List.findIdx?_map, Function.comp_def, h.id_eq, h.name_eq]

theorem runs_map (h : KeepsRuns f) (pool : List Test) (t : Test) :
    t.runs (pool.map f) = t.runs pool := by
  rw [Test.runs, Test.runs, h.findTestIndex?_map]

theorem testAt_map (f : Test → Test) (hi : i < pool.length) :
    testAt (pool.map f) i = f (testAt pool i) := by
  simp [testAt, hi]

theorem testAt_map_of_le (f : Test → Test) (hi : pool.length ≤ i) :
    testAt (pool.map f) i = testAt pool i := by
  simp [testAt, hi]

theorem name_testAt_map (h : KeepsRuns f) (pool : List Test) (i : Nat) :
    (testAt (pool.map f) i).name = (testAt pool i).name := by
  by_cases hi : i < pool.length
  · rw [testAt_map f hi, h.name_eq]
  · rw [testAt_map_of_le f (Nat.le_of_not_gt hi)]

theorem runs_testAt_map (h : KeepsRuns f) (pool : List Test) :
    (fun i => (testAt (pool.map f) i).runs (pool.map f)) = fun i => (testAt pool i).runs pool := by
  funext i
  rw [h.runs_map]
  by_cases hi : i < pool.length
  · rw [testAt_map f hi, h.runs_eq]
  · rw [testAt_map_of_le f (Nat.le_of_not_gt hi)]

theorem flatMap_runs_map (h : KeepsRuns f) (pool members : List Test) :
    (members.map f).flatMap (Test.runs (pool.map f)) = members.flatMap (Test.runs pool) := by
  rw [List.flatMap_map]
  congr 1
  funext t
  rw [h.runs_map, h.runs_eq]

theorem reached_map_iff (h : KeepsRuns f) :
    Reached (pool.map f) (members.map f) i ↔ Reached pool members i := by
  rw [Reached, Reached, h.runs_testAt_map, h.flatMap_runs_map]

theorem runOrder_map (h : KeepsRuns f) (pool members : List Test) :
    runOrder (pool.map f) (members.map f) = runOrder pool members := by
  rw [runOrder, runOrder, runNotes, runNotes, h.runs_testAt_map, h.flatMap_runs_map, List.length_map]

theorem involved_map_iff (h : KeepsRuns f) {t : Test} :
    Involved (pool.map f) (members.map f) t ↔ ∃ u, Involved pool members u ∧ f u = t := by
  constructor
  · rintro (ht | ⟨i, hi, rfl⟩)
    · obtain ⟨u, hu, rfl⟩ := List.mem_map.mp ht
      exact ⟨u, .inl hu, rfl⟩
    · rw [h.reached_map_iff] at hi
      exact ⟨_, .inr ⟨i, hi, rfl⟩, (testAt_map f hi.lt).symm⟩
  · rintro ⟨u, hu | ⟨i, hi, rfl⟩, rfl⟩
    · exact .inl (List.mem_map_of_mem hu)
    · exact .inr ⟨i, h.reached_map_iff.mpr hi, testAt_map f hi.lt⟩

theorem exists_involved_map_iff (h : KeepsRuns f) {p : Test → Prop} :
    (∃ t, Involved (pool.map f) (members.map f) t ∧ p t) ↔
      ∃ t, Involved pool members t ∧ p (f t) := by
  simp only [h.involved_map_iff]
  constructor
  · rintro ⟨_, ⟨t, ht, rfl⟩, hp⟩
    exact ⟨t, ht, hp⟩
  · rintro ⟨t, ht, hp⟩
    exact ⟨_, ⟨t, ht, rfl⟩, hp⟩

end KeepsRuns

/-! ## A disabled step more -/

namespace Test

/-- The test with one step more after the first `k` of its steps. -/
def withStep (t : Test) (k : Nat) (d : Step) : Test :=
  { t with commands := t.commands.take k ++ d :: t.commands.drop k }

theorem mem_commands_withStep (t : Test) (k : Nat) (d : Step) {s : Step} :
    s ∈ (t.withStep k d).commands ↔ s ∈ t.commands ∨ s = d := by
  have hparts : s ∈ t.commands ↔ s ∈ t.commands.take k ∨ s ∈ t.commands.drop k := by
    rw [← List.mem_append, List.take_append_drop]
  rw [withStep, List.mem_append, List.mem_cons, hparts, or_assoc, or_comm (a := s = d)]

/-- The change that gives one test a step more and leaves all others as they are. -/
def giveStep (t : Test) (k : Nat) (d : Step) (u : Test) : Test :=
  if u = t then t.withStep k d else u

theorem giveStep_self (t : Test) (k : Nat) (d : Step) : t.giveStep k d t = t.withStep k d :=
  if_pos rfl

theorem giveStep_of_ne {t u : Test} (h : u ≠ t) (k : Nat) (d : Step) : t.giveStep k d u = u :=
  if_neg h

theorem runs_withStep (t : Test) (k : Nat) {d : Step} (hd : d.command ≠ "run") (pool : List Test) :
    (t.withStep k d).runs pool = t.runs pool := by
  simp only [runs, withStep, List.filterMap_append, List.filterMap_cons, if_neg hd]
  rw [← List.filterMap_append, List.take_append_drop]

theorem keepsRuns_giveStep (t : Test) (k : Nat) {d : Step} (hd : d.command ≠ "run") :
    KeepsRuns (t.giveStep k d) := by
  have hgiven (u : Test) : t.giveStep k d u = u ∨ u = t ∧ t.giveStep k d u = t.withStep k d := by
    by_cases hu : u = t
    · exact .inr ⟨hu, hu ▸ t.giveStep_self k d⟩
    · exact .inl (giveStep_of_ne hu k d)
  refine ⟨fun u => ?_, fun u => ?_, fun pool u => ?_⟩
  · rcases hgiven u with hu | ⟨rfl, hu⟩ <;> rw [hu]
    rfl
  · rcases hgiven u with hu | ⟨rfl, hu⟩ <;> rw [hu]
    rfl
  · rcases hgiven u with hu | ⟨rfl, hu⟩ <;> rw [hu]
    exact runs_withStep u k hd pool

end Test

end CestWriter
