import CestWriter.Proofs.ClassFile.Helpers
import Mathlib.Data.List.Perm.Basic

/-! # A suite is the union of its tests

No body depends on the methods before it, and what a class needs, it needs of each member on its own,
except that the test methods have different names. -/

namespace CestWriter

/-- The names and lines of the methods that a class declares for its members. -/
def Class.declared (c : Class) : List (String × List Line) :=
  c.methods.map (fun m => (m.name, m.lines)) ++
    if c.opensWindow then [(Window.helperName, Window.helper)] else []

/-! ## Fewer members -/

theorem Reached.mono {pool members members' : List Test} (hsub : ∀ t ∈ members', t ∈ members) {i : Nat}
    (h : Reached pool members' i) : Reached pool members i := by
  obtain ⟨t, ht, hi⟩ := reached_iff.mp h
  exact reached_iff.mpr ⟨t, hsub t ht, hi⟩

theorem Involved.mono {pool members members' : List Test} (hsub : ∀ t ∈ members', t ∈ members)
    {t : Test} (h : Involved pool members' t) : Involved pool members t := by
  obtain ⟨u, hu, ht⟩ := involved_iff.mp h
  exact involved_iff.mpr ⟨u, hsub u hu, ht⟩

namespace Exporter

variable {e : Exporter} {pool members members' : List Test} {options : RenderOptions}
  {name name' : String}

/-- Some of the members of a class make a class of their own, in any order. -/
theorem Exportable.mono (h : e.Exportable name members pool options)
    (hsub : ∀ t ∈ members', t ∈ members) (hnamed : (Identifier.sanitize name').isEmpty = false)
    (hnames : (members'.map fun t => Identifier.testMethodName t.name).Nodup) :
    e.Exportable name' members' pool options where
  named := hnamed
  membersNamed t ht := h.membersNamed t (hsub t ht)
  written t ht := h.written t (ht.mono hsub)
  testsApart := hnames
  helpersApart i j hi hj := h.helpersApart i j (hi.mono hsub) (hj.mono hsub)
  testApartFromHelper t ht i hi := h.testApartFromHelper t (hsub t ht) i (hi.mono hsub)
  awaitApart hopens i hi := by
    obtain ⟨t, ht, ho⟩ := hopens
    exact h.awaitApart ⟨t, ht.mono hsub, ho⟩ i (hi.mono hsub)

theorem Exportable.single (h : e.Exportable name members pool options) {t : Test} (ht : t ∈ members) :
    e.Exportable t.name [t] pool options :=
  h.mono (by simpa using ht) (h.membersNamed t ht) (List.nodup_singleton _)

theorem Exportable.perm (h : e.Exportable name members pool options) (hperm : members'.Perm members) :
    e.Exportable name members' pool options :=
  h.mono (fun _ ht => hperm.mem_iff.mp ht) h.named ((hperm.map _).nodup_iff.mpr h.testsApart)

/-! ## What is declared -/

theorem mem_declared_assembled {p : String × List Line} :
    p ∈ (e.assembled members pool options).declared ↔
      (∃ t ∈ members, p = ((e.testMethod pool options t).name, (e.testMethod pool options t).lines)) ∨
      (∃ i, Reached pool members i ∧
        p = ((e.helperMethod pool options i).name, (e.helperMethod pool options i).lines)) ∨
      (∃ t, Involved pool members t ∧ t.opensWindow = true) ∧ p = (Window.helperName, Window.helper) := by
  have hopens : (e.assembled members pool options).opensWindow = true ↔ _ := opensWindow_assembled
  rw [Class.declared, List.mem_append, methods_assembled, List.map_append, List.mem_append, or_assoc,
    ← hopens]
  simp only [List.mem_map, mem_runOrder, exists_exists_and_eq_and, eq_comm (b := p)]
  cases (e.assembled members pool options).opensWindow <;> simp

/-- The class of some members declares what the classes of the single members declare. -/
theorem mem_declared_assembled_iff {p : String × List Line} :
    p ∈ (e.assembled members pool options).declared ↔
      ∃ t ∈ members, p ∈ (e.assembled [t] pool options).declared := by
  simp only [mem_declared_assembled, List.mem_singleton, exists_eq_left]
  constructor
  · rintro (⟨t, ht, rfl⟩ | ⟨i, hi, rfl⟩ | ⟨⟨t, ht, ho⟩, rfl⟩)
    · exact ⟨t, ht, .inl rfl⟩
    · obtain ⟨t, ht, hi⟩ := reached_iff.mp hi
      exact ⟨t, ht, .inr (.inl ⟨i, hi, rfl⟩)⟩
    · obtain ⟨u, hu, ht⟩ := involved_iff.mp ht
      exact ⟨u, hu, .inr (.inr ⟨⟨t, ht, ho⟩, rfl⟩)⟩
  · rintro ⟨t, ht, rfl | ⟨i, hi, rfl⟩ | ⟨⟨u, hu, ho⟩, rfl⟩⟩
    · exact .inl ⟨t, ht, rfl⟩
    · exact .inr (.inl ⟨i, reached_iff.mpr ⟨t, ht, hi⟩, rfl⟩)
    · exact .inr (.inr ⟨⟨u, involved_iff.mpr ⟨t, ht, hu⟩, ho⟩, rfl⟩)

theorem names_declared_assembled : (e.assembled members pool options).declared.map (·.1) =
    (sources members pool).map (·.1) ++
      if (e.assembled members pool options).opensWindow then [Window.helperName] else [] := by
  rw [Class.declared, List.map_append, List.map_map, assembled, List.map_map, apply_ite (List.map _)]
  rfl

/-- No name is declared twice just if the tests are apart and the method that awaits a window is. -/
theorem nodup_declared_assembled_iff : ((e.assembled members pool options).declared.map (·.1)).Nodup ↔
    ((sources members pool).map (·.1)).Nodup ∧
      ((∃ t, Involved pool members t ∧ t.opensWindow = true) →
        ∀ i, Reached pool members i → helperNameAt pool i ≠ Window.helperName) := by
  have hmem : Window.helperName ∈ (sources members pool).map (·.1) ↔
      ∃ i, Reached pool members i ∧ helperNameAt pool i = Window.helperName := by
    have hdeclares : (e.assembled members pool options).declares _ = true ↔ _ := declares_assembled
    rw [← hdeclares, Class.declares_iff, assembled, List.map_map]
    rfl
  have hopens : (e.assembled members pool options).opensWindow = true ↔ _ := opensWindow_assembled
  rw [names_declared_assembled, ← hopens]
  cases (e.assembled members pool options).opensWindow with
  | false => simp
  | true =>
      rw [if_pos rfl, List.nodup_append_comm, List.singleton_append, List.nodup_cons, hmem, and_comm]
      simp

theorem Exportable.nodup_declared (h : e.Exportable name members pool options) :
    ((e.assembled members pool options).declared.map (·.1)).Nodup :=
  nodup_declared_assembled_iff.mpr ⟨h.nodup_sources, h.awaitApart⟩

/-! ## Suites -/

theorem suiteMembers_eq_ok_iff {s : Suite} : suiteMembers s pool = .ok members ↔
    List.Forall₂ (fun key t => findTest? pool key = some t) s.tests members := by
  rw [suiteMembers, mapM_eq_ok_iff]
  refine iff_of_eq (congrArg (List.Forall₂ · s.tests members) ?_)
  funext key t
  cases findTest? pool key <;> simp

/-- The class of a suite, made of the tests that it names, next to the classes of these tests. -/
structure IsUnion (e : Exporter) (s : Suite) (pool : List Test) (options : RenderOptions)
    (members : List Test) (c : Class) : Prop where
  members_eq : List.Forall₂ (fun key t => findTest? pool key = some t) s.tests members
  assembled : e.assemble s.name members pool options = .ok c
  exported : e.exportSuite s pool options =
    .ok ⟨Identifier.fileName s.name, Line.textOf (e.layout s.name c)⟩
  alone : ∀ t ∈ members, ∃ single, e.assemble t.name [t] pool options = .ok single ∧
    e.exportTest t pool options =
      .ok ⟨Identifier.fileName t.name, Line.textOf (e.layout t.name single)⟩
  mem_declared : ∀ p, p ∈ c.declared ↔ ∃ t ∈ members, ∃ single,
    e.assemble t.name [t] pool options = .ok single ∧ p ∈ single.declared
  namesApart : (c.declared.map (·.1)).Nodup
  inOrder : c.methods.take members.length = members.map (e.testMethod pool options)
  /-- A member that is also run has one body in both of its methods. -/
  oneBody : ∀ t ∈ members, ∀ i, Reached pool members i → testAt pool i = t → ∃ body,
    ⟨Identifier.testMethodName t.name, body⟩ ∈ c.methods ∧
      ⟨Identifier.helperName t.name, body⟩ ∈ c.methods

theorem isUnion_assembled {s : Suite}
    (hmembers : List.Forall₂ (fun key t => findTest? pool key = some t) s.tests members)
    (h : e.Exportable s.name members pool options) :
    e.IsUnion s pool options members (e.assembled members pool options) where
  members_eq := hmembers
  assembled := assemble_eq_ok_iff.mpr ⟨h, rfl⟩
  exported := by
    rw [exportSuite]
    exact bind_eq_ok.mpr ⟨members, suiteMembers_eq_ok_iff.mpr hmembers,
      exportClass_eq_ok_iff.mpr ⟨h, rfl⟩⟩
  alone t ht := ⟨_, assemble_eq_ok_iff.mpr ⟨h.single ht, rfl⟩,
    exportClass_eq_ok_iff.mpr ⟨h.single ht, rfl⟩⟩
  mem_declared p := by
    rw [mem_declared_assembled_iff]
    refine exists_congr fun t => and_congr_right fun ht => ?_
    constructor
    · intro hp
      exact ⟨_, assemble_eq_ok_iff.mpr ⟨h.single ht, rfl⟩, hp⟩
    · rintro ⟨single, hsingle, hp⟩
      obtain ⟨-, rfl⟩ := assemble_eq_ok_iff.mp hsingle
      exact hp
  namesApart := h.nodup_declared
  inOrder := by
    rw [methods_assembled, List.take_left' (List.length_map _)]
  oneBody t ht i hi hit := by
    subst hit
    rw [methods_assembled]
    exact ⟨(e.body pool options (testAt pool i)).lines,
      List.mem_append_left _ (List.mem_map.mpr ⟨_, ht, rfl⟩),
      List.mem_append_right _ (List.mem_map.mpr ⟨i, mem_runOrder.mpr hi, rfl⟩)⟩

/-- A suite that can be exported is the union of its tests. Each of them can be exported on its own,
the class of the suite declares just the methods of their classes, and a member that is also run has
the same body in both of its methods. The tests in another order make a class with the same methods,
the test methods in that order. -/
theorem suite_is_union (e : Exporter) (s : Suite) (pool : List Test) (options : RenderOptions)
    (file : ClassFile) (h : e.exportSuite s pool options = .ok file) :
    ∃ members c, e.IsUnion s pool options members c ∧
      ∀ keys, keys.Perm s.tests → ∃ members' c',
        e.IsUnion { s with tests := keys } pool options members' c' ∧
        members'.Perm members ∧ ∀ p, p ∈ c'.declared ↔ p ∈ c.declared := by
  rw [exportSuite] at h
  obtain ⟨members, hmembers, h⟩ := bind_eq_ok.mp h
  rw [suiteMembers_eq_ok_iff] at hmembers
  obtain ⟨hexportable, -⟩ := exportClass_eq_ok_iff.mp h
  refine ⟨members, _, isUnion_assembled hmembers hexportable, fun keys hkeys => ?_⟩
  obtain ⟨members', hmembers', hperm⟩ := List.perm_comp_forall₂ hkeys hmembers
  refine ⟨members', _, isUnion_assembled hmembers' (hexportable.perm hperm), hperm, fun p => ?_⟩
  rw [mem_declared_assembled_iff, mem_declared_assembled_iff]
  exact exists_congr fun t => and_congr_left fun _ => hperm.mem_iff

/-- A test that runs the other one and opens a window. -/
theorem suite_is_union_of_two :
    let first : Test := ⟨"1", "first",
      [{ Step.blank with command := "run", target := "2", opensWindow := true }]⟩
    let second : Test := ⟨"2", "second", []⟩
    let pool : List Test := [first, second]
    let s : Suite := { Suite.blank with name := "both", tests := ["1", "2"] }
    let options : RenderOptions := ⟨"", false, false⟩
    let e : Exporter := ⟨.builtin, .webDriver, .initial⟩
    ∃ file, e.exportSuite s pool options = .ok file ∧
      ∃ members c, e.IsUnion s pool options members c ∧ ∃ members' c',
        e.IsUnion { s with tests := ["2", "1"] } pool options members' c' ∧
        members'.Perm members ∧ ∀ p, p ∈ c'.declared ↔ p ∈ c.declared := by
  intro first second pool s options e
  have he : e.registry = .builtin := rfl
  have hfirst : ∀ step ∈ first.commands, ∃ f, (e.writeStep pool options step).2 = .ok f :=
    List.forall_mem_singleton.mpr
      ⟨_, (writeStep_run_iff he rfl).mpr ⟨1, by decide, by decide, rfl⟩⟩
  have hsecond : ∀ step ∈ second.commands, ∃ f, (e.writeStep pool options step).2 = .ok f := by
    simp [second]
  have hexportable : e.Exportable s.name pool pool options := by
    refine .of_pool (by decide) (by decide) ?_ (by decide) (by decide) (by decide) (by decide)
    exact List.forall_mem_cons.mpr ⟨hfirst, List.forall_mem_cons.mpr ⟨hsecond,
      List.forall_mem_cons.mpr ⟨hfirst, List.forall_mem_singleton.mpr hsecond⟩⟩⟩
  have hmembers : List.Forall₂ (fun key t => findTest? pool key = some t) s.tests pool :=
    .cons (by decide) (.cons (by decide) .nil)
  have hfile := (isUnion_assembled hmembers hexportable).exported
  obtain ⟨members, c, hunion, hperm⟩ := suite_is_union e s pool options _ hfile
  exact ⟨_, hfile, members, c, hunion, hperm ["2", "1"] (by decide)⟩

end Exporter

end CestWriter
