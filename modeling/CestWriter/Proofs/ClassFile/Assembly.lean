import CestWriter.ClassFile.Basic
import CestWriter.Proofs.ClassFile.Placement
import CestWriter.Proofs.Emission.Registry

/-! # When a class can be assembled, and what it holds

Methods are added one by one and the tests that they run are noted. The class after some methods
depends on these methods and notes alone, so what a whole run needs and gives can be said without
the run. -/

namespace CestWriter

/-- The name of the helper method for a test of the pool. -/
def helperNameAt (pool : List Test) (i : Nat) : String :=
  Identifier.helperName (testAt pool i).name

/-- Methods made of tests and runs noted on the way that can stand in one class: the methods have
different names, and so have the helper methods for the runs. -/
structure Consistent (pool : List Test) (made : List (String × Test)) (noted : List Nat) : Prop where
  nodup : (made.map (·.1)).Nodup
  apart : ∀ i ∈ noted, ∀ j ∈ noted, helperNameAt pool i = helperNameAt pool j → i = j

theorem Consistent.of_append {pool : List Test} {made made' : List (String × Test)}
    {noted noted' : List Nat} (h : Consistent pool (made ++ made') (noted ++ noted')) :
    Consistent pool made noted where
  nodup := by
    have hnodup := h.nodup
    rw [List.map_append] at hnodup
    exact hnodup.of_append_left
  apart i hi j hj := h.apart i (List.mem_append_left _ hi) j (List.mem_append_left _ hj)

/-- One more method can be made if none has its name. -/
theorem Consistent.nodup_concat_iff {pool : List Test} {made : List (String × Test)}
    {noted : List Nat} (h : Consistent pool made noted) {m : String × Test} :
    ((made ++ [m]).map (·.1)).Nodup ↔ m.1 ∉ made.map (·.1) := by
  rw [List.map_append, List.map_singleton, ← List.concat_eq_append, List.nodup_concat,
    and_iff_left h.nodup]

/-- One more run can be noted if its helper method shares its name with no other. -/
theorem Consistent.concat_iff {pool : List Test} {made : List (String × Test)} {noted : List Nat}
    (h : Consistent pool made noted) {i : Nat} : Consistent pool made (noted ++ [i]) ↔
      ∀ j ∈ noted, helperNameAt pool j = helperNameAt pool i → j = i := by
  constructor
  · intro hnext j hj
    exact hnext.apart j (by simp [hj]) i (by simp)
  · intro hapart
    refine ⟨h.nodup, fun j hj k hk hjk => ?_⟩
    simp only [List.mem_append, List.mem_singleton] at hj hk
    rcases hj with hj | rfl <;> rcases hk with hk | rfl
    · exact h.apart j hj k hk hjk
    · exact hapart j hj hjk
    · exact (hapart k hk hjk.symm).symm
    · rfl

theorem Class.declares_iff {c : Class} {name : String} :
    c.declares name = true ↔ name ∈ c.methods.map (·.name) := by
  simp [declares]

theorem Class.addMethod_eq (pool : List Test) (name testName : String) (b : Body) (c : Class) :
    c.addMethod pool name testName b =
      if c.declares name then .error (.invalidName testName)
      else b.runs.foldlM (noteRun pool) c >>= fun noted =>
        match b.fault with
        | some fault => .error fault
        | none => .ok { noted with
            methods := noted.methods ++ [⟨name, b.lines⟩]
            opensWindow := noted.opensWindow || b.opensWindow } := by
  unfold addMethod
  cases c.declares name <;> rfl

namespace Exporter

variable {e : Exporter} {pool : List Test} {options : RenderOptions}

/-- The class after methods have been `made` of tests, with the runs `noted` on the way. -/
def classAfter (e : Exporter) (pool : List Test) (options : RenderOptions)
    (made : List (String × Test)) (noted : List Nat) : Class where
  methods := made.map fun m => ⟨m.1, (e.body pool options m.2).lines⟩
  helpers := noted.eraseDups.map fun i => (helperNameAt pool i, i)
  opensWindow := made.any fun m => (e.body pool options m.2).opensWindow

/-! ## Noting runs -/

theorem lookup_places (f : Nat → String) (places : List Nat) (name : String) :
    (places.map fun i => (f i, i)).lookup name = places.find? (fun i => f i = name) := by
  induction places with
  | nil => rfl
  | cons i places ih =>
      rw [List.map_cons, Table.lookup_cons, List.find?_cons, ih]
      by_cases h : f i = name
      · simp [h]
      · simp [h, Ne.symm h]

variable {made : List (String × Test)} {noted : List Nat} {c : Class}

theorem noteRun_eq_ok_iff (h : Consistent pool made noted) {i : Nat} :
    Class.noteRun pool (e.classAfter pool options made noted) i = .ok c ↔
      Consistent pool made (noted ++ [i]) ∧ c = e.classAfter pool options made (noted ++ [i]) := by
  have hlookup : (e.classAfter pool options made noted).helpers.lookup
      (Identifier.helperName (pool[i]?.getD .blank).name) =
      noted.eraseDups.find? fun j => helperNameAt pool j = helperNameAt pool i :=
    lookup_places ..
  unfold Class.noteRun
  dsimp only
  rw [hlookup, h.concat_iff]
  cases hfind : noted.eraseDups.find? fun j => helperNameAt pool j = helperNameAt pool i with
  | none =>
      have hnone : ∀ j ∈ noted, helperNameAt pool j ≠ helperNameAt pool i := by
        simpa using List.find?_eq_none.mp hfind
      have hfresh : i ∉ noted := fun hi => hnone i hi rfl
      have hapart : ∀ j ∈ noted, helperNameAt pool j = helperNameAt pool i → j = i :=
        fun j hj hname => absurd hname (hnone j hj)
      rw [and_iff_right hapart, Except.ok.injEq]
      simp only [classAfter, eraseDups_concat, if_neg hfresh, List.map_append, List.map_singleton]
      exact eq_comm
  | some j =>
      obtain ⟨hname, hj⟩ : helperNameAt pool j = helperNameAt pool i ∧ j ∈ noted :=
        ⟨by simpa using List.find?_some hfind, by simpa using List.mem_of_find?_eq_some hfind⟩
      by_cases hij : i = j
      · subst hij
        rw [and_iff_right fun k hk hname => h.apart k hk i hj hname]
        simp only [if_true, Except.ok.injEq, classAfter, eraseDups_concat, if_pos hj]
        exact eq_comm
      · -- Another test has the name, so the names are not apart whatever follows.
        simp only [if_neg hij, reduceCtorEq, false_iff, not_and]
        intro hapart
        exact absurd (hapart j hj hname).symm hij

theorem noteRuns_eq_ok_iff (h : Consistent pool made noted) {runs : List Nat} :
    runs.foldlM (Class.noteRun pool) (e.classAfter pool options made noted) = .ok c ↔
      Consistent pool made (noted ++ runs) ∧ c = e.classAfter pool options made (noted ++ runs) := by
  induction runs generalizing noted with
  | nil =>
      rw [List.append_nil]
      exact ⟨fun hc => ⟨h, (Except.ok.inj hc).symm⟩, fun hc => hc.2 ▸ rfl⟩
  | cons i runs ih =>
      rw [List.foldlM_cons, bind_eq_ok, List.append_cons]
      constructor
      · rintro ⟨mid, hmid, hc⟩
        obtain ⟨hnext, rfl⟩ := (noteRun_eq_ok_iff h).mp hmid
        exact (ih hnext).mp hc
      · rintro ⟨hall, rfl⟩
        have hnext : Consistent pool made (noted ++ [i]) := ⟨h.nodup, fun j hj k hk =>
          hall.apart j (List.mem_append_left _ hj) k (List.mem_append_left _ hk)⟩
        exact ⟨_, (noteRun_eq_ok_iff h).mpr ⟨hnext, rfl⟩, (ih hnext).mpr ⟨hall, rfl⟩⟩

/-! ## Adding methods -/

theorem addMethod_eq_ok_iff (h : Consistent pool made noted) {name testName : String} {t : Test} :
    (e.classAfter pool options made noted).addMethod pool name testName (e.body pool options t) =
        .ok c ↔
      (e.body pool options t).fault = none ∧
        Consistent pool (made ++ [(name, t)]) (noted ++ t.runs pool) ∧
        c = e.classAfter pool options (made ++ [(name, t)]) (noted ++ t.runs pool) := by
  have hdeclares : (e.classAfter pool options made noted).declares name = true ↔
      name ∈ made.map (·.1) := by
    rw [Class.declares_iff, classAfter, List.map_map]
    rfl
  rw [Class.addMethod_eq]
  split
  · next hd =>
      have hrepeated : ¬ Consistent pool (made ++ [(name, t)]) (noted ++ t.runs pool) :=
        fun hnext => h.nodup_concat_iff.mp hnext.nodup (hdeclares.mp hd)
      simp [hrepeated]
  · next hd =>
      have hnodup : ((made ++ [(name, t)]).map (·.1)).Nodup :=
        h.nodup_concat_iff.mpr (mt hdeclares.mpr hd)
      rw [bind_eq_ok]
      constructor
      · rintro ⟨mid, hmid, hc⟩
        cases hf : (e.body pool options t).fault with
        | some fault => simp [hf] at hc
        | none =>
            obtain ⟨hnoted, rfl⟩ := (noteRuns_eq_ok_iff h).mp hmid
            rw [hf] at hc
            obtain rfl := Except.ok.inj hc
            rw [runs_body hf] at hnoted
            exact ⟨rfl, ⟨hnodup, hnoted.apart⟩, by simp [classAfter, runs_body hf]⟩
      · rintro ⟨hf, hnext, rfl⟩
        have hnoted : Consistent pool made (noted ++ (e.body pool options t).runs) := by
          rw [runs_body hf]
          exact ⟨h.nodup, hnext.apart⟩
        exact ⟨_, (noteRuns_eq_ok_iff h).mpr ⟨hnoted, rfl⟩, by simp [hf, classAfter, runs_body hf]⟩

/-- A member gives a test method. -/
def testMade (t : Test) : String × Test :=
  (Identifier.testMethodName t.name, t)

/-- A test of the pool gives a helper method. -/
def helperMade (pool : List Test) (i : Nat) : String × Test :=
  (helperNameAt pool i, testAt pool i)

theorem addMember_eq_ok_iff (h : Consistent pool made noted) {t : Test} :
    e.addMember pool options (e.classAfter pool options made noted) t = .ok c ↔
      ((Identifier.sanitize t.name).isEmpty = false ∧ (e.body pool options t).fault = none) ∧
        Consistent pool (made ++ [testMade t]) (noted ++ t.runs pool) ∧
        c = e.classAfter pool options (made ++ [testMade t]) (noted ++ t.runs pool) := by
  unfold addMember
  cases (Identifier.sanitize t.name).isEmpty with
  | true => simp
  | false =>
      rw [if_neg (by decide), addMethod_eq_ok_iff h, and_assoc, eq_self, true_and]
      rfl

theorem addMembers_eq_ok_iff {members : List Test} (h : Consistent pool made noted) :
    members.foldlM (e.addMember pool options) (e.classAfter pool options made noted) = .ok c ↔
      (∀ t ∈ members, (Identifier.sanitize t.name).isEmpty = false ∧
        (e.body pool options t).fault = none) ∧
      Consistent pool (made ++ members.map testMade)
        (noted ++ members.flatMap (Test.runs pool)) ∧
      c = e.classAfter pool options (made ++ members.map testMade)
        (noted ++ members.flatMap (Test.runs pool)) := by
  induction members generalizing made noted with
  | nil =>
      simp only [List.map_nil, List.flatMap_nil, List.append_nil]
      exact ⟨fun hc => ⟨by simp, h, (Except.ok.inj hc).symm⟩, fun hc => hc.2.2 ▸ rfl⟩
  | cons t members ih =>
      rw [List.foldlM_cons, bind_eq_ok, List.forall_mem_cons, List.map_cons, List.append_cons,
        List.flatMap_cons, ← List.append_assoc]
      constructor
      · rintro ⟨mid, hmid, hc⟩
        obtain ⟨ht, hnext, rfl⟩ := (addMember_eq_ok_iff h).mp hmid
        obtain ⟨hall, hrest⟩ := (ih hnext).mp hc
        exact ⟨⟨ht, hall⟩, hrest⟩
      · rintro ⟨⟨ht, hall⟩, hlast, rfl⟩
        have hnext := hlast.of_append
        exact ⟨_, (addMember_eq_ok_iff h).mpr ⟨ht, hnext, rfl⟩, (ih hnext).mpr ⟨hall, hlast, rfl⟩⟩

/-! ## Taking helpers from the queue -/

theorem helpers_classAfter (e : Exporter) (pool : List Test) (options : RenderOptions)
    (made : List (String × Test)) (noted : List Nat) (k : Nat) :
    (e.classAfter pool options made noted).helpers[k]? =
      noted.eraseDups[k]?.map fun i => (helperNameAt pool i, i) :=
  List.getElem?_map

theorem addHelpers_succ {fuel k i : Nat} {name : String} (h : c.helpers[k]? = some (name, i)) :
    e.addHelpers pool options (fuel + 1) k c =
      c.addMethod pool name (testAt pool i).name (e.body pool options (testAt pool i)) >>=
        e.addHelpers pool options fuel (k + 1) := by
  rw [addHelpers, h]
  rfl

theorem ok_iff_of_taken {k : Nat} (h : Consistent pool made noted)
    (hk : noted.eraseDups.length ≤ k) :
    (Except.ok (e.classAfter pool options made noted) : Except ExportError Class) = .ok c ↔
      (∀ i ∈ noted.eraseDups.drop k, (e.body pool options (testAt pool i)).fault = none) ∧
      Consistent pool (made ++ (noted.eraseDups.drop k).map (helperMade pool)) noted ∧
      c = e.classAfter pool options (made ++ (noted.eraseDups.drop k).map (helperMade pool)) noted := by
  rw [List.drop_of_length_le hk, List.map_nil, List.append_nil, Except.ok.injEq]
  exact ⟨fun hc => ⟨by simp, h, hc.symm⟩, fun hc => hc.2.2.symm⟩

/-- The queue is followed as far as `explore` does, if the fuel is enough for what it finds. -/
theorem addHelpers_eq_ok_iff {fuel k : Nat} {found : List Nat} (h : Consistent pool made noted)
    (hfound : explore (fun i => (testAt pool i).runs pool) fuel k noted = found)
    (hfuel : found.eraseDups.length ≤ k + fuel) :
    e.addHelpers pool options fuel k (e.classAfter pool options made noted) = .ok c ↔
      (∀ i ∈ found.eraseDups.drop k, (e.body pool options (testAt pool i)).fault = none) ∧
      Consistent pool (made ++ (found.eraseDups.drop k).map (helperMade pool)) found ∧
      c = e.classAfter pool options (made ++ (found.eraseDups.drop k).map (helperMade pool)) found := by
  induction fuel generalizing k made noted with
  | zero =>
      rw [explore] at hfound
      subst hfound
      exact ok_iff_of_taken h hfuel
  | succ fuel ih =>
      have hqueue := helpers_classAfter e pool options made noted k
      rw [explore] at hfound
      cases hi : noted.eraseDups[k]? with
      | none =>
          simp only [hi] at hfound
          subst hfound
          rw [hi, Option.map_none] at hqueue
          rw [addHelpers, hqueue]
          exact ok_iff_of_taken h (List.getElem?_eq_none_iff.mp hi)
      | some i =>
          simp only [hi] at hfound
          rw [hi, Option.map_some] at hqueue
          -- What is noted so far begins what is found, where the test that is taken has this place.
          have hprefix : noted <+: found :=
            hfound ▸ (List.prefix_append ..).trans (explore.prefix_explore ..)
          obtain ⟨hk, hget⟩ := List.getElem?_eq_some_iff.mp (getElem?_eraseDups_append hprefix hi)
          rw [List.drop_eq_getElem_cons hk, hget, List.forall_mem_cons, List.map_cons,
            List.append_cons, addHelpers_succ hqueue, bind_eq_ok]
          constructor
          · rintro ⟨mid, hmid, hc⟩
            obtain ⟨hi, hnext, rfl⟩ := (addMethod_eq_ok_iff h).mp hmid
            obtain ⟨hall, hrest⟩ := (ih hnext hfound (by omega)).mp hc
            exact ⟨⟨hi, hall⟩, hrest⟩
          · rintro ⟨⟨hi, hall⟩, hlast, rfl⟩
            have hnext : Consistent pool (made ++ [helperMade pool i])
                (noted ++ (testAt pool i).runs pool) := by
              obtain ⟨later, rfl⟩ : noted ++ (testAt pool i).runs pool <+: found :=
                hfound ▸ explore.prefix_explore ..
              exact hlast.of_append
            exact ⟨_, (addMethod_eq_ok_iff h).mpr ⟨hi, hnext, rfl⟩,
              (ih hnext hfound (by omega)).mpr ⟨hall, hlast, rfl⟩⟩

/-! ## The whole class -/

/-- What the parts of an export need to make one class. -/
structure Exportable (e : Exporter) (name : String) (members pool : List Test)
    (options : RenderOptions) : Prop where
  named : (Identifier.sanitize name).isEmpty = false
  membersNamed : ∀ t ∈ members, (Identifier.sanitize t.name).isEmpty = false
  /-- Every step of every test is written, and finds the test that it runs. -/
  written : ∀ t, Involved pool members t → (e.body pool options t).fault = none
  testsApart : (members.map fun t => Identifier.testMethodName t.name).Nodup
  helpersApart : ∀ i j, Reached pool members i → Reached pool members j →
    helperNameAt pool i = helperNameAt pool j → i = j
  testApartFromHelper : ∀ t ∈ members, ∀ i, Reached pool members i →
    Identifier.testMethodName t.name ≠ helperNameAt pool i
  /-- The method that awaits a window has its name for itself where it is needed. -/
  awaitApart : (∃ t, Involved pool members t ∧ t.opensWindow = true) →
    ∀ i, Reached pool members i → helperNameAt pool i ≠ Window.helperName

theorem mem_pool_of_reached {members : List Test} {i : Nat} (h : Reached pool members i) :
    testAt pool i ∈ pool := by
  rw [testAt, List.getElem?_eq_getElem h.lt]
  exact List.getElem_mem h.lt

theorem mem_append_of_involved {members : List Test} {t : Test} (h : Involved pool members t) :
    t ∈ members ++ pool := by
  rcases h with h | ⟨i, hi, rfl⟩
  · exact List.mem_append_left _ h
  · exact List.mem_append_right _ (mem_pool_of_reached hi)

theorem written_of_pool {members : List Test}
    (h : ∀ t ∈ members ++ pool, ∀ s ∈ t.commands, ∃ f, (e.writeStep pool options s).2 = .ok f) :
    ∀ t, Involved pool members t → (e.body pool options t).fault = none := fun t ht =>
  fault_eq_none_iff_written.mpr (h t (mem_append_of_involved ht))

/-- Tests can be exported from a pool whose tests are all written and named apart. -/
theorem Exportable.of_pool {name : String} {members : List Test}
    (named : (Identifier.sanitize name).isEmpty = false)
    (membersNamed : ∀ t ∈ members, (Identifier.sanitize t.name).isEmpty = false)
    (written : ∀ t ∈ members ++ pool, ∀ s ∈ t.commands, ∃ f, (e.writeStep pool options s).2 = .ok f)
    (testsApart : (members.map fun t => Identifier.testMethodName t.name).Nodup)
    (helpersApart : (pool.map fun t => Identifier.helperName t.name).Nodup)
    (testsApartFromHelpers : ∀ t ∈ members, ∀ u ∈ pool,
      Identifier.testMethodName t.name ≠ Identifier.helperName u.name)
    (awaitApart : ∀ u ∈ pool, Identifier.helperName u.name ≠ Window.helperName) :
    e.Exportable name members pool options := by
  refine ⟨named, membersNamed, written_of_pool written, testsApart, ?_, ?_,
    fun _ i hi => awaitApart _ (mem_pool_of_reached hi)⟩
  · intro i j hi hj hname
    have hat : ∀ k, Reached pool members k →
        (pool.map fun t => Identifier.helperName t.name)[k]? = some (helperNameAt pool k) := by
      intro k hk
      rw [List.getElem?_map, helperNameAt, testAt, List.getElem?_eq_getElem hk.lt]
      rfl
    have hi' : i < (pool.map fun t => Identifier.helperName t.name).length := by simpa using hi.lt
    exact (List.getElem?_inj hi' helpersApart).mp (by rw [hat i hi, hat j hj, hname])
  · exact fun t ht i hi => testsApartFromHelpers t ht _ (mem_pool_of_reached hi)

/-- The methods of a class and the tests that they are made of: the members, and then the tests that
these reach. -/
def sources (members pool : List Test) : List (String × Test) :=
  members.map testMade ++ (runOrder pool members).map (helperMade pool)

/-- The class that comes out if none of the parts is at fault. -/
def assembled (e : Exporter) (members pool : List Test) (options : RenderOptions) : Class where
  methods := (sources members pool).map fun m => ⟨m.1, (e.body pool options m.2).lines⟩
  helpers := (runOrder pool members).map fun i => (helperNameAt pool i, i)
  opensWindow := (sources members pool).any (·.2.opensWindow)

variable {members : List Test} {name : String}

theorem mem_sources {m : String × Test} : m ∈ sources members pool ↔
    (∃ t ∈ members, m = testMade t) ∨ ∃ i, Reached pool members i ∧ m = helperMade pool i := by
  simp only [sources, List.mem_append, List.mem_map, mem_runOrder, eq_comm (a := m)]

theorem involved_iff_mem_sources {t : Test} :
    Involved pool members t ↔ ∃ m ∈ sources members pool, m.2 = t := by
  constructor
  · rintro (h | ⟨i, hi, rfl⟩)
    · exact ⟨_, mem_sources.mpr (.inl ⟨t, h, rfl⟩), rfl⟩
    · exact ⟨_, mem_sources.mpr (.inr ⟨i, hi, rfl⟩), rfl⟩
  · rintro ⟨m, hm, rfl⟩
    rcases mem_sources.mp hm with ⟨t, ht, rfl⟩ | ⟨i, hi, rfl⟩
    · exact .inl ht
    · exact .inr ⟨i, hi, rfl⟩

theorem assemble_eq (e : Exporter) (name : String) (members pool : List Test)
    (options : RenderOptions) : e.assemble name members pool options =
      if (Identifier.sanitize name).isEmpty then .error (.invalidName name)
      else members.foldlM (e.addMember pool options) .empty >>= fun base =>
        e.addHelpers pool options pool.length 0 base >>= fun c =>
          if c.opensWindow && c.declares Window.helperName then .error (.invalidName Window.helperName)
          else .ok c := by
  unfold assemble
  cases (Identifier.sanitize name).isEmpty <;> rfl

theorem testMethodName_ne_helperName (name : String) :
    Identifier.testMethodName name ≠ Window.helperName := by
  intro h
  have hhead := congrArg (fun s : String => s.toList.head?) h
  simp [Identifier.testMethodName, Window.helperName] at hhead

/-- The names of test methods and helper methods are all different if no two tests share one. -/
theorem nodup_sources_iff : ((sources members pool).map (·.1)).Nodup ↔
    (members.map fun t => Identifier.testMethodName t.name).Nodup ∧
    (∀ i j, Reached pool members i → Reached pool members j →
      helperNameAt pool i = helperNameAt pool j → i = j) ∧
    ∀ t ∈ members, ∀ i, Reached pool members i →
      Identifier.testMethodName t.name ≠ helperNameAt pool i := by
  have hnames : (sources members pool).map (·.1) =
      members.map (fun t => Identifier.testMethodName t.name) ++
        (runOrder pool members).map (helperNameAt pool) := by
    rw [sources, List.map_append, List.map_map, List.map_map]
    rfl
  have horder := (breadthFirst_runOrder pool members).nodup
  rw [hnames, List.nodup_append]
  refine and_congr_right fun _ => and_congr ?_ ?_
  · constructor
    · intro h i j hi hj
      exact List.inj_on_of_nodup_map h (mem_runOrder.mpr hi) (mem_runOrder.mpr hj)
    · intro h
      exact horder.map_on fun i hi j hj => h i j (mem_runOrder.mp hi) (mem_runOrder.mp hj)
  · simp only [List.forall_mem_map, mem_runOrder]

theorem consistent_sources_iff : Consistent pool (sources members pool) (runNotes pool members) ↔
    ((sources members pool).map (·.1)).Nodup := by
  refine ⟨fun h => h.nodup, fun h => ⟨h, fun i hi j hj => ?_⟩⟩
  exact (nodup_sources_iff.mp h).2.1 i j (mem_runNotes.mp hi) (mem_runNotes.mp hj)

theorem Exportable.nodup_sources (h : e.Exportable name members pool options) :
    ((sources members pool).map (·.1)).Nodup :=
  nodup_sources_iff.mpr ⟨h.testsApart, h.helpersApart, h.testApartFromHelper⟩

/-- Once all bodies are written, the class after all methods can be told from the tests alone. -/
theorem classAfter_sources
    (hwritten : ∀ t, Involved pool members t → (e.body pool options t).fault = none) :
    e.classAfter pool options (sources members pool) (runNotes pool members) =
      e.assembled members pool options := by
  have hopens : (sources members pool).any (fun m => (e.body pool options m.2).opensWindow) =
      (sources members pool).any (·.2.opensWindow) := by
    rw [Bool.eq_iff_iff, List.any_eq_true, List.any_eq_true]
    refine exists_congr fun m => and_congr_right fun hm => ?_
    rw [opensWindow_body (hwritten m.2 (involved_iff_mem_sources.mpr ⟨m, hm, rfl⟩))]
  rw [classAfter, assembled, hopens, runOrder]

def testMethod (e : Exporter) (pool : List Test) (options : RenderOptions) (t : Test) : Method :=
  ⟨Identifier.testMethodName t.name, (e.body pool options t).lines⟩

def helperMethod (e : Exporter) (pool : List Test) (options : RenderOptions) (i : Nat) : Method :=
  ⟨helperNameAt pool i, (e.body pool options (testAt pool i)).lines⟩

theorem methods_assembled : (e.assembled members pool options).methods =
    members.map (e.testMethod pool options) ++
      (runOrder pool members).map (e.helperMethod pool options) := by
  rw [assembled, sources, List.map_append, List.map_map, List.map_map]
  rfl

theorem opensWindow_assembled : (e.assembled members pool options).opensWindow = true ↔
    ∃ t, Involved pool members t ∧ t.opensWindow = true := by
  rw [assembled, List.any_eq_true]
  constructor
  · rintro ⟨m, hm, ht⟩
    exact ⟨m.2, involved_iff_mem_sources.mpr ⟨m, hm, rfl⟩, ht⟩
  · rintro ⟨t, ht, ho⟩
    obtain ⟨m, hm, rfl⟩ := involved_iff_mem_sources.mp ht
    exact ⟨m, hm, ho⟩

theorem declares_assembled : (e.assembled members pool options).declares Window.helperName = true ↔
    ∃ i, Reached pool members i ∧ helperNameAt pool i = Window.helperName := by
  rw [Class.declares_iff, assembled, List.map_map, List.mem_map]
  constructor
  · rintro ⟨m, hm, hname⟩
    rcases mem_sources.mp hm with ⟨t, -, rfl⟩ | ⟨i, hi, rfl⟩
    · exact absurd hname (testMethodName_ne_helperName t.name)
    · exact ⟨i, hi, hname⟩
  · rintro ⟨i, hi, hname⟩
    exact ⟨_, mem_sources.mpr (.inr ⟨i, hi, rfl⟩), hname⟩

theorem addAllMembers_eq_ok_iff :
    members.foldlM (e.addMember pool options) .empty = .ok c ↔
      (∀ t ∈ members, (Identifier.sanitize t.name).isEmpty = false ∧
        (e.body pool options t).fault = none) ∧
      Consistent pool (members.map testMade) (members.flatMap (Test.runs pool)) ∧
      c = e.classAfter pool options (members.map testMade) (members.flatMap (Test.runs pool)) :=
  have hempty : Consistent pool [] [] := ⟨List.nodup_nil, by simp⟩
  addMembers_eq_ok_iff hempty

theorem addAllHelpers_eq_ok_iff
    (h : Consistent pool (members.map testMade) (members.flatMap (Test.runs pool))) :
    e.addHelpers pool options pool.length 0
        (e.classAfter pool options (members.map testMade) (members.flatMap (Test.runs pool))) = .ok c ↔
      (∀ i, Reached pool members i → (e.body pool options (testAt pool i)).fault = none) ∧
      Consistent pool (sources members pool) (runNotes pool members) ∧
      c = e.classAfter pool options (sources members pool) (runNotes pool members) := by
  have hfuel : (runNotes pool members).eraseDups.length ≤ 0 + pool.length := by
    rw [Nat.zero_add]
    exact length_runOrder_le pool members
  rw [addHelpers_eq_ok_iff h rfl hfuel, List.drop_zero]
  simp only [← mem_runOrder]
  rfl

/-- The method that awaits a window keeps its name where it is needed. -/
theorem awaitApart_iff : ((e.assembled members pool options).opensWindow &&
      (e.assembled members pool options).declares Window.helperName) = false ↔
    ((∃ t, Involved pool members t ∧ t.opensWindow = true) →
      ∀ i, Reached pool members i → helperNameAt pool i ≠ Window.helperName) := by
  rw [← Bool.not_eq_true, Bool.and_eq_true, opensWindow_assembled, declares_assembled]
  simp only [not_and, not_exists, ne_eq]

/-- If all methods can stand in one class, the test methods can before the helpers are taken. -/
theorem consistent_members
    (h : Consistent pool (sources members pool) (runNotes pool members)) :
    Consistent pool (members.map testMade) (members.flatMap (Test.runs pool)) := by
  obtain ⟨later, hlater⟩ : members.flatMap (Test.runs pool) <+: runNotes pool members :=
    explore.prefix_explore ..
  rw [← hlater] at h
  exact h.of_append

/-- A class can be assembled if and only if its parts are exportable, and it is made of the members
and of the tests that they reach. -/
theorem assemble_eq_ok_iff : e.assemble name members pool options = .ok c ↔
    e.Exportable name members pool options ∧ c = e.assembled members pool options := by
  rw [assemble_eq]
  constructor
  · intro h
    cases hnamed : (Identifier.sanitize name).isEmpty with
    | true => simp [hnamed] at h
    | false =>
        rw [hnamed, if_neg (by decide)] at h
        obtain ⟨base, hbase, h⟩ := bind_eq_ok.mp h
        obtain ⟨full, hfull, h⟩ := bind_eq_ok.mp h
        obtain ⟨hmembers, hconsistent, rfl⟩ := addAllMembers_eq_ok_iff.mp hbase
        obtain ⟨hhelpers, hall, rfl⟩ := (addAllHelpers_eq_ok_iff hconsistent).mp hfull
        obtain ⟨htests, hhelpersApart, hboth⟩ := nodup_sources_iff.mp hall.nodup
        have hwritten : ∀ t, Involved pool members t → (e.body pool options t).fault = none := by
          rintro t (ht | ⟨i, hi, rfl⟩)
          · exact (hmembers t ht).2
          · exact hhelpers i hi
        rw [classAfter_sources hwritten] at h
        split at h
        · cases h
        · next hawait =>
            exact ⟨⟨hnamed, fun t ht => (hmembers t ht).1, hwritten, htests, hhelpersApart, hboth,
              awaitApart_iff.mp (Bool.not_eq_true _ ▸ hawait)⟩, (Except.ok.inj h).symm⟩
  · rintro ⟨h, rfl⟩
    have hall : Consistent pool (sources members pool) (runNotes pool members) :=
      consistent_sources_iff.mpr h.nodup_sources
    have hbase := addAllMembers_eq_ok_iff.mpr
      ⟨fun t ht => ⟨h.membersNamed t ht, h.written t (.inl ht)⟩, consistent_members hall, rfl⟩
    have hfull := (addAllHelpers_eq_ok_iff (consistent_members hall)).mpr
      ⟨fun i hi => h.written _ (.inr ⟨i, hi, rfl⟩), hall, classAfter_sources h.written |>.symm⟩
    rw [h.named, if_neg (by decide), hbase]
    change (e.addHelpers pool options pool.length 0 _ >>= _) = _
    rw [hfull]
    change (if _ then _ else _) = _
    rw [awaitApart_iff.mpr h.awaitApart, if_neg (by decide)]

theorem exportClass_eq_ok_iff {file : ClassFile} :
    e.exportClass name members pool options = .ok file ↔ e.Exportable name members pool options ∧
      file = ⟨Identifier.fileName name,
        Line.textOf (e.layout name (e.assembled members pool options))⟩ := by
  rw [exportClass]
  cases hresult : e.assemble name members pool options with
  | error fault =>
      have hnot : ¬ e.Exportable name members pool options := fun h => by
        rw [assemble_eq_ok_iff.mpr ⟨h, rfl⟩] at hresult
        cases hresult
      simp [Except.map, hnot]
  | ok c =>
      obtain ⟨h, rfl⟩ := assemble_eq_ok_iff.mp hresult
      simp only [Except.map, Except.ok.injEq, h, true_and]
      exact eq_comm

/-- What cannot be exported is an error. -/
theorem exists_error_of_not_exportable (h : ¬ e.Exportable name members pool options) :
    ∃ fault, e.exportClass name members pool options = .error fault := by
  cases hresult : e.assemble name members pool options with
  | error fault => exact ⟨fault, by rw [exportClass, hresult, Except.map]⟩
  | ok c => exact absurd (assemble_eq_ok_iff.mp hresult).1 h

end Exporter

end CestWriter
