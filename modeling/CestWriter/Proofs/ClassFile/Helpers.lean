import CestWriter.Proofs.ClassFile.Assembly

/-! # Helper methods are the tests that are run

The queue of helper methods ends, with one method for each test that is reached and in the order of
discovery, and each call in a body is a call of the method made of the test that is run. -/

namespace CestWriter

namespace Exporter

variable {e : Exporter} {pool : List Test} {options : RenderOptions}

/-! ## The queue without fuel -/

/-- Helper methods are added from the `k`-th on, until none is left or one is at fault. -/
inductive Drains (e : Exporter) (pool : List Test) (options : RenderOptions) :
    Nat → Class → Except ExportError Class → Prop
  | done {k : Nat} {c : Class} (h : c.helpers[k]? = none) : Drains e pool options k c (.ok c)
  | stuck {k : Nat} {c : Class} {name : String} {i : Nat} {fault : ExportError}
    (h : c.helpers[k]? = some (name, i))
    (hadd : c.addMethod pool name (testAt pool i).name (e.body pool options (testAt pool i)) =
      .error fault) :
    Drains e pool options k c (.error fault)
  | turn {k : Nat} {c next : Class} {name : String} {i : Nat} {result : Except ExportError Class}
    (h : c.helpers[k]? = some (name, i))
    (hadd : c.addMethod pool name (testAt pool i).name (e.body pool options (testAt pool i)) =
      .ok next)
    (hrest : Drains e pool options (k + 1) next result) :
    Drains e pool options k c result

theorem Drains.unique {k : Nat} {c : Class} {result result' : Except ExportError Class}
    (h : e.Drains pool options k c result) (h' : e.Drains pool options k c result') :
    result = result' := by
  induction h generalizing result' with
  | done hc => cases h' <;> simp_all
  | stuck hc hadd => cases h' <;> simp_all
  | turn hc hadd _ ih =>
      cases h' with
      | done hc' => simp_all
      | stuck hc' hadd' => simp_all
      | turn hc' hadd' hrest' =>
          rw [hc] at hc'
          obtain ⟨rfl, rfl⟩ := Prod.mk.inj (Option.some.inj hc')
          rw [hadd] at hadd'
          obtain rfl := Except.ok.inj hadd'
          exact ih hrest'

/-- As many turns as the pool has tests are enough, since no test is queued twice. -/
theorem drains_addHelpers {made : List (String × Test)} {noted : List Nat} {fuel k : Nat}
    (h : Consistent pool made noted) (hlt : ∀ i ∈ noted, i < pool.length)
    (hfuel : pool.length ≤ k + fuel) :
    e.Drains pool options k (e.classAfter pool options made noted)
      (e.addHelpers pool options fuel k (e.classAfter pool options made noted)) := by
  induction fuel generalizing k made noted with
  | zero =>
      -- All tests of the pool may be queued by now, but none of them twice.
      have hlength := length_le_of_nodup (nodup_eraseDups noted)
        fun i hi => hlt i (List.mem_eraseDups.mp hi)
      refine .done ?_
      rw [helpers_classAfter, List.getElem?_eq_none (by omega), Option.map_none]
  | succ fuel ih =>
      have hqueue := helpers_classAfter e pool options made noted k
      cases hi : noted.eraseDups[k]? with
      | none =>
          rw [hi, Option.map_none] at hqueue
          rw [addHelpers, hqueue]
          exact .done hqueue
      | some i =>
          rw [hi, Option.map_some] at hqueue
          rw [addHelpers_succ hqueue]
          cases hadd : (e.classAfter pool options made noted).addMethod pool (helperNameAt pool i)
              (testAt pool i).name (e.body pool options (testAt pool i)) with
          | error fault => exact .stuck hqueue hadd
          | ok next =>
              obtain ⟨-, hnext, rfl⟩ := (addMethod_eq_ok_iff h).mp hadd
              refine .turn hqueue hadd (ih hnext (fun j hj => ?_) (by omega))
              rcases List.mem_append.mp hj with hj | hj
              · exact hlt j hj
              · exact Test.lt_of_mem_runs hj

/-- Followed from the methods of the members on, the queue comes to just one end. -/
theorem drains_iff {members : List Test} {base : Class} {result : Except ExportError Class}
    (hbase : members.foldlM (e.addMember pool options) .empty = .ok base) :
    e.Drains pool options 0 base result ↔ result = e.addHelpers pool options pool.length 0 base := by
  obtain ⟨-, hconsistent, rfl⟩ := addAllMembers_eq_ok_iff.mp hbase
  have hdrains : e.Drains pool options 0 _ (e.addHelpers pool options pool.length 0 _) :=
    drains_addHelpers hconsistent (fun i hi => Reached.lt (.root hi)) (Nat.le_add_left ..)
  exact ⟨fun h => h.unique hdrains, fun h => h ▸ hdrains⟩

/-! ## Calls -/

/-- The fragment of a step that calls a helper method. -/
def callFragment (s : Step) (method : String) : Fragment :=
  let call : Fragment := .statement ("$this->" ++ method ++ "($i);")
  if s.opensWindow then Window.wrap s call else call

/-- The built-in registry writes `run` as a call of the helper method named after the target. -/
theorem emit_builtin_run {setting : Setting} {s : Step} {f : Fragment} (hrun : s.command = "run") :
    Registry.builtin.emit setting s = .ok f ↔ (Identifier.helperName s.target).isEmpty = false ∧
      f = callFragment s (Identifier.helperName s.target) := by
  have henabled : s.isDisabled = false := by
    rw [Step.isDisabled, hrun]
    decide
  have haction : Action.ofCommand? "run" = some .runTest := by decide +kernel
  have hcompose : Action.runTest.compose setting s = Emission.runTest s.target := rfl
  rw [Registry.emit_builtin_eq_ok_iff henabled, hrun, haction]
  simp only [Option.some.injEq, exists_and_left, exists_eq_left', hcompose, Emission.runTest]
  cases (Identifier.helperName s.target).isEmpty with
  | true => simp
  | false =>
      simp only [Bool.false_eq_true, if_false, Except.ok.injEq, exists_eq_left', true_and]
      rfl

/-- A step that runs a test is written as a call of the method named after the test that it finds. -/
theorem writeStep_run_iff (he : e.registry = .builtin) {s : Step} {f : Fragment}
    (hrun : s.command = "run") : (e.writeStep pool options s).2 = .ok f ↔
      ∃ i, findTestIndex? pool s.target = some i ∧ (helperNameAt pool i).isEmpty = false ∧
        f = callFragment s (helperNameAt pool i) := by
  unfold writeStep
  rw [if_pos hrun]
  cases hfind : findTestIndex? pool s.target with
  | none => simp
  | some i =>
      have hcall (method : String) :
          callFragment { s with target := (testAt pool i).name } method = callFragment s method := by
        simp only [callFragment, Window.wrap, Window.await, Step.windowWait]
      let call : Step := { s with target := (testAt pool i).name }
      have hemit : Registry.builtin.emit (e.setting options) call = .ok f ↔ _ := emit_builtin_run hrun
      simp only [he, mapError_eq_ok_iff, Option.some.injEq, exists_eq_left']
      rw [hcall] at hemit
      exact hemit

/-! ## Classes -/

/-- A body in which each step that runs a test calls the helper method of the test that it finds. -/
def CallsHelpers (e : Exporter) (pool : List Test) (options : RenderOptions) (order : List Nat)
    (t : Test) : Prop :=
  ∃ placed, e.Placement pool options .start t.commands placed ∧
    (e.body pool options t).lines = e.bodyLines options t placed ∧
    ∀ p ∈ placed, p.step.command = "run" → ∃ i ∈ order,
      findTestIndex? pool p.step.target = some i ∧
        p.fragment = callFragment p.step (helperNameAt pool i)

/-- After the test methods, a class has a helper method for each test that is reached from its
members, and calls these methods for the tests that they are made of. -/
structure HasRunClosure (e : Exporter) (pool : List Test) (options : RenderOptions)
    (members : List Test) (c : Class) (order : List Nat) : Prop where
  breadthFirst : BreadthFirst (fun i => (testAt pool i).runs pool) (members.flatMap (Test.runs pool))
    order
  inPool : ∀ i ∈ order, i < pool.length
  methods_eq : c.methods = members.map (e.testMethod pool options) ++
    order.map (e.helperMethod pool options)
  namesApart : (c.methods.map (·.name)).Nodup
  calls : ∀ t ∈ members ++ order.map (testAt pool), e.CallsHelpers pool options order t

theorem callsHelpers {members : List Test} {t : Test} (he : e.registry = .builtin)
    (ht : Involved pool members t) (hfault : (e.body pool options t).fault = none) :
    e.CallsHelpers pool options (runOrder pool members) t := by
  obtain ⟨placed, hplaced⟩ := fault_eq_none_iff.mp hfault
  refine ⟨placed, hplaced, by rw [hplaced.body_eq], fun p hp hrun => ?_⟩
  obtain ⟨i, hfind, -, hcall⟩ := (writeStep_run_iff he hrun).mp (hplaced.written p hp)
  have hruns : i ∈ t.runs pool := by
    rw [Test.mem_runs, ← hplaced.steps_eq]
    exact ⟨p.step, List.mem_map_of_mem hp, hrun, hfind⟩
  exact ⟨i, mem_runOrder.mpr (reached_iff_involved.mpr ⟨t, ht, hruns⟩), hfind, hcall⟩

theorem hasRunClosure_assembled {name : String} {members : List Test} (he : e.registry = .builtin)
    (h : e.Exportable name members pool options) :
    e.HasRunClosure pool options members (e.assembled members pool options)
      (runOrder pool members) where
  breadthFirst := breadthFirst_runOrder pool members
  inPool i hi := (mem_runOrder.mp hi).lt
  methods_eq := methods_assembled
  namesApart := by
    have hnames : (e.assembled members pool options).methods.map (·.name) =
        (sources members pool).map (·.1) := by
      rw [assembled, List.map_map]
      rfl
    rw [hnames]
    exact h.nodup_sources
  calls t ht := by
    have hinvolved : Involved pool members t := by
      rcases List.mem_append.mp ht with ht | ht
      · exact .inl ht
      · obtain ⟨i, hi, rfl⟩ := List.mem_map.mp ht
        exact .inr ⟨i, mem_runOrder.mp hi, rfl⟩
    exact callsHelpers he hinvolved (h.written t hinvolved)

/-- With the built-in emitters, the helper methods of a class are made of the tests that its members
reach by `run`. The queue of helper methods comes to just one end, over any pool. A class that comes
out has the methods of the reached tests once each and breadth first, and calls them for the tests
that are run. A `run` without a test, or two reached tests with one helper method, make an error. -/
theorem helpers_are_run_closure (locators : LocatorWriter) (hooks : Hooks) (name : String)
    (members pool : List Test) (options : RenderOptions) :
    let e : Exporter := ⟨.builtin, locators, hooks⟩
    (∀ base, members.foldlM (e.addMember pool options) .empty = .ok base →
      ∀ result, e.Drains pool options 0 base result ↔
        result = e.addHelpers pool options pool.length 0 base) ∧
    (∀ c, e.assemble name members pool options = .ok c →
      ∃ order, e.HasRunClosure pool options members c order) ∧
    ((∃ t s, Involved pool members t ∧ s ∈ t.commands ∧ s.command = "run" ∧
        findTestIndex? pool s.target = none) ∨
      (∃ i j, Reached pool members i ∧ Reached pool members j ∧ i ≠ j ∧
        helperNameAt pool i = helperNameAt pool j) →
      ∃ fault, e.exportClass name members pool options = .error fault) := by
  intro e
  refine ⟨fun base hbase result => drains_iff hbase, ?_, ?_⟩
  · intro c hc
    obtain ⟨h, rfl⟩ := assemble_eq_ok_iff.mp hc
    exact ⟨_, hasRunClosure_assembled rfl h⟩
  · intro h
    apply exists_error_of_not_exportable
    intro hexportable
    rcases h with ⟨t, s, ht, hs, hrun, hmissing⟩ | ⟨i, j, hi, hj, hne, hname⟩
    · obtain ⟨i, hi⟩ := exists_findTestIndex? (hexportable.written t ht) hs hrun
      rw [hmissing] at hi
      cases hi
    · exact hne (hexportable.helpersApart i j hi hj hname)

/-- A test that runs another, which runs itself and the first in turn; a run of nothing; and runs of
two tests with one helper method. -/
theorem helpers_are_run_closure_of_cycle :
    let run (key : String) : Step := { Step.blank with command := "run", target := key }
    let main : Test := ⟨"m-1", "main", [run "s-1"]⟩
    let seed : Test := ⟨"s-1", "seed", [run "seed", run "main"]⟩
    let twin : Test := ⟨"s-2", "seed!", []⟩
    let lost : Test := ⟨"l-1", "lost", [run "nothing"]⟩
    let both : Test := ⟨"b-1", "both", [run "s-1", run "s-2"]⟩
    let options : RenderOptions := ⟨"", false, false⟩
    let e : Exporter := ⟨.builtin, .webDriver, .initial⟩
    (∃ base, [main].foldlM (e.addMember [main, seed] options) .empty = .ok base ∧
      e.Drains [main, seed] options 0 base (e.addHelpers [main, seed] options 2 0 base)) ∧
    (∃ c order, e.assemble "main" [main] [main, seed] options = .ok c ∧
      e.HasRunClosure [main, seed] options [main] c order ∧
      c.methods.map (·.name) = ["testMain", "seed", "main"]) ∧
    (∃ fault, e.exportClass "lost" [lost] [main, seed] options = .error fault) ∧
    ∃ fault, e.exportClass "both" [both] [seed, twin] options = .error fault := by
  intro run main seed twin lost both options e
  have he : e.registry = .builtin := rfl
  have hwritten : ∀ key i, findTestIndex? [main, seed] key = some i →
      (helperNameAt [main, seed] i).isEmpty = false →
      ∃ f, (e.writeStep [main, seed] options (run key)).2 = .ok f := fun key i hi hname =>
    ⟨_, (writeStep_run_iff he rfl).mpr ⟨i, hi, hname, rfl⟩⟩
  have hmain : ∀ s ∈ main.commands, ∃ f, (e.writeStep [main, seed] options s).2 = .ok f :=
    List.forall_mem_singleton.mpr (hwritten "s-1" 1 (by decide) (by decide))
  have hseed : ∀ s ∈ seed.commands, ∃ f, (e.writeStep [main, seed] options s).2 = .ok f :=
    List.forall_mem_cons.mpr ⟨hwritten "seed" 1 (by decide) (by decide),
      List.forall_mem_singleton.mpr (hwritten "main" 0 (by decide) (by decide))⟩
  have hexportable : e.Exportable "main" [main] [main, seed] options := by
    refine .of_pool (by decide) (by decide) ?_ (by decide) (by decide) (by decide) (by decide)
    exact List.forall_mem_cons.mpr ⟨hmain, List.forall_mem_cons.mpr
      ⟨hmain, List.forall_mem_singleton.mpr hseed⟩⟩
  have hclass := assemble_eq_ok_iff.mpr ⟨hexportable, rfl⟩
  obtain ⟨base, hbase⟩ : ∃ base,
      [main].foldlM (e.addMember [main, seed] options) .empty = .ok base := by
    rw [assemble_eq, if_neg (by decide)] at hclass
    obtain ⟨base, hbase, -⟩ := bind_eq_ok.mp hclass
    exact ⟨base, hbase⟩
  obtain ⟨hends, hclosure, -⟩ := helpers_are_run_closure .webDriver .initial "main" [main]
    [main, seed] options
  obtain ⟨-, -, hlost⟩ := helpers_are_run_closure .webDriver .initial "lost" [lost]
    [main, seed] options
  obtain ⟨-, -, hboth⟩ := helpers_are_run_closure .webDriver .initial "both" [both]
    [seed, twin] options
  refine ⟨⟨base, hbase, (hends base hbase _).mpr rfl⟩, ?_, ?_, ?_⟩
  · obtain ⟨order, horder⟩ := hclosure _ hclass
    refine ⟨_, order, hclass, horder, ?_⟩
    rw [assembled, List.map_map]
    decide +kernel
  · refine hlost (.inl ⟨lost, run "nothing", .inl (by simp), by simp [lost], rfl, by decide⟩)
  · have hreached : ∀ i ∈ both.runs [seed, twin], Reached [seed, twin] [both] i := fun i hi =>
      .root (by simpa using hi)
    exact hboth (.inr ⟨0, 1, hreached 0 (by decide), hreached 1 (by decide), by decide, by decide⟩)

end Exporter

end CestWriter
