import CestWriter.Proofs.Recording.Discovery
import CestWriter.Recording.Basic

/-! # The tests that tests run

A test runs tests of a pool, which run others in turn. -/

namespace CestWriter

/-- The places in the pool of the tests that a test runs, in the order of its steps. -/
def Test.runs (pool : List Test) (t : Test) : List Nat :=
  t.commands.filterMap fun s => if s.command = "run" then findTestIndex? pool s.target else none

/-- The test at a place of the pool. -/
def testAt (pool : List Test) (i : Nat) : Test :=
  pool[i]?.getD .blank

/-- The tests of the pool that the members run, on their own or through other tests. -/
def Reached (pool members : List Test) (i : Nat) : Prop :=
  Reaches (fun i => (testAt pool i).runs pool) (members.flatMap (Test.runs pool)) i

/-- The members and the tests that they reach. -/
def Involved (pool members : List Test) (t : Test) : Prop :=
  t ∈ members ∨ ∃ i, Reached pool members i ∧ testAt pool i = t

/-- All runs, as a queue of reached tests notes them. -/
def runNotes (pool members : List Test) : List Nat :=
  explore (fun i => (testAt pool i).runs pool) pool.length 0 (members.flatMap (Test.runs pool))

/-- The reached tests as the queue meets them. -/
def runOrder (pool members : List Test) : List Nat :=
  (runNotes pool members).eraseDups

variable {pool members : List Test} {i : Nat}

theorem findTestIndex?_lt {key : String} (h : findTestIndex? pool key = some i) :
    i < pool.length := by
  unfold findTestIndex? at h
  split at h
  · next hid =>
      obtain rfl := Option.some.inj h
      exact (List.findIdx?_eq_some_iff_getElem.mp hid).1
  · exact (List.findIdx?_eq_some_iff_getElem.mp h).1

theorem Test.mem_runs {t : Test} :
    i ∈ t.runs pool ↔ ∃ s ∈ t.commands, s.command = "run" ∧ findTestIndex? pool s.target = some i := by
  simp [runs]

theorem Test.lt_of_mem_runs {t : Test} (h : i ∈ t.runs pool) : i < pool.length := by
  obtain ⟨s, -, -, hs⟩ := mem_runs.mp h
  exact findTestIndex?_lt hs

theorem Reached.lt (h : Reached pool members i) : i < pool.length := by
  cases h with
  | root h =>
      obtain ⟨t, -, ht⟩ := List.mem_flatMap.mp h
      exact Test.lt_of_mem_runs ht
  | onward _ h => exact Test.lt_of_mem_runs h

theorem breadthFirst_runOrder (pool members : List Test) :
    BreadthFirst (fun i => (testAt pool i).runs pool) (members.flatMap (Test.runs pool))
      (runOrder pool members) :=
  breadthFirst_explore fun _ h => Reached.lt h

theorem mem_runOrder : i ∈ runOrder pool members ↔ Reached pool members i :=
  (breadthFirst_runOrder pool members).mem_iff i

theorem length_runOrder_le (pool members : List Test) :
    (runOrder pool members).length ≤ pool.length :=
  length_explore_le (fun _ h => Reached.lt h) pool.length

theorem mem_runNotes : i ∈ runNotes pool members ↔ Reached pool members i := by
  rw [← mem_runOrder, runOrder, List.mem_eraseDups]

/-- The reached tests are those that the members and reached tests run. -/
theorem reached_iff_involved :
    Reached pool members i ↔ ∃ t, Involved pool members t ∧ i ∈ t.runs pool := by
  constructor
  · intro h
    cases h with
    | root h =>
        obtain ⟨t, ht, hi⟩ := List.mem_flatMap.mp h
        exact ⟨t, .inl ht, hi⟩
    | onward hj hi => exact ⟨_, .inr ⟨_, hj, rfl⟩, hi⟩
  · rintro ⟨t, ht | ⟨j, hj, rfl⟩, hi⟩
    · exact .root (List.mem_flatMap.mpr ⟨t, ht, hi⟩)
    · exact .onward hj hi

/-- What members reach is what one of them reaches. -/
theorem reached_iff : Reached pool members i ↔ ∃ t ∈ members, Reached pool [t] i := by
  rw [Reached, reaches_flatMap]
  simp only [Reached, List.flatMap_cons, List.flatMap_nil, List.append_nil]

theorem involved_iff {t : Test} :
    Involved pool members t ↔ ∃ u ∈ members, Involved pool [u] t := by
  simp only [Involved, List.mem_singleton]
  constructor
  · rintro (h | ⟨i, hi, rfl⟩)
    · exact ⟨t, h, .inl rfl⟩
    · obtain ⟨u, hu, hi⟩ := reached_iff.mp hi
      exact ⟨u, hu, .inr ⟨i, hi, rfl⟩⟩
  · rintro ⟨u, hu, rfl | ⟨i, hi, rfl⟩⟩
    · exact .inl hu
    · exact .inr ⟨i, reached_iff.mpr ⟨u, hu, hi⟩, rfl⟩

end CestWriter
