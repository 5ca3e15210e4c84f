import CestWriter.Proofs.ClassFile.Union
import CestWriter.Proofs.Recording.Names
import CestWriter.Proofs.Text.Lead

/-! # Names of methods

Methods of one class have different names for PHP if they differ in more than the case of ASCII
letters. Equal names of generated methods are refused; other clashes are not looked for. -/

namespace CestWriter

/-! ## Names in the text -/

/-- What PHP tells methods apart by. -/
def Php.methodKey (name : String) : String :=
  String.ofList (name.toList.map Char.toLower)

/-- The name that the first line of a class member declares. -/
def declaredName? (member : List Line) : Option String :=
  member.head?.bind fun l => (Text.after? "public function " l.statement).map fun rest =>
    String.ofList (rest.toList.takeWhile Text.isNameChar)

/-- The names of all methods in a class, in order. -/
def Exporter.methodNames (e : Exporter) (c : Class) : List String :=
  (e.members c).filterMap declaredName?

/-- A name in front of an opening parenthesis is read back. -/
theorem declaredName?_eq {name rest : String} {lines : List Line}
    (h : ∀ c ∈ name.toList, Text.isNameChar c = true) :
    declaredName? (⟨0, "public function " ++ name ++ "(" ++ rest⟩ :: lines) = some name := by
  have hread : ("public function " ++ name ++ "(" ++ rest) =
      "public function " ++ (name ++ "(" ++ rest) := by
    simp only [String.append_assoc]
  have hname : ((name ++ "(" ++ rest).toList.takeWhile Text.isNameChar) = name.toList := by
    have hopen : ∀ c ∈ ("(".toList ++ rest.toList).head?, Text.isNameChar c = false := by
      simpa using (by decide : Text.isNameChar '(' = false)
    rw [String.toList_append, String.toList_append, List.append_assoc, Text.takeWhile_run h hopen]
  rw [declaredName?, List.head?_cons, Option.bind_some, hread, Text.after?_append, Option.map_some,
    hname, String.ofList_toList]

theorem Method.declaredName?_lines {m : Method} (h : ∀ c ∈ m.name.toList, Text.isNameChar c = true) :
    declaredName? m.lines = some m.name := by
  have hlead : "(AcceptanceTester $i) \x7b" = "(" ++ "AcceptanceTester $i) \x7b" := by decide
  rw [Method.lines, hlead, ← String.append_assoc]
  exact declaredName?_eq h

/-! ## Hooks around tests -/

/-- The hooks that are methods of their own, with their names. -/
def Hook.methods : List (Hook.Kind × String) :=
  [(.beforeAll, "_initialize"), (.beforeEach, "_before"), (.afterEach, "_after"),
    (.afterAll, "_afterSuite")]

/-- The initial hooks, with any lines registered in the methods around tests. -/
inductive Hooks.AroundTests : Hooks → Prop
  | initial : AroundTests .initial
  | register {hs : Hooks} {kind : Hook.Kind} (h : AroundTests hs)
    (hkind : kind ∈ Hook.methods.map (·.1)) (l : Line) : AroundTests (hs.register kind l)

/-- The methods among the hooks that appear in the class. -/
def Exporter.hookNames (e : Exporter) : List String :=
  (Hook.methods.filter fun (kind, _) => (e.hooks.get kind).isRendered).map (·.2)

/-- A hook differs from the initial one in what is registered, and only around tests. -/
theorem Hooks.AroundTests.get_eq {hs : Hooks} (h : hs.AroundTests) (kind : Hook.Kind) :
    ∃ lines, hs.get kind = { Hook.initial kind with registered := lines } ∧
      (kind ∉ Hook.methods.map (·.1) → lines = []) := by
  induction h with
  | initial => exact ⟨[], by cases kind <;> rfl, fun _ => rfl⟩
  | @register hs other _ hother l ih =>
      obtain ⟨lines, hget, hempty⟩ := ih
      by_cases hkind : kind = other
      · subst hkind
        exact ⟨lines ++ [l], by simp [Hooks.register, Hook.register, hget], fun hn => absurd hother hn⟩
      · exact ⟨lines, by simp [Hooks.register, hget, hkind], hempty⟩

theorem declaredName?_render {h : Hook} {name : String} (hopen : h.opening =
    [⟨0, "public function " ++ name ++ "() \x7b"⟩]) (hname : ∀ c ∈ name.toList, Text.isNameChar c = true) :
    declaredName? h.render = some name := by
  have hlead : "() \x7b" = "(" ++ ") \x7b" := by decide
  rw [Hook.render, hopen, hlead, ← String.append_assoc]
  exact declaredName?_eq hname

theorem hookMembers_names {e : Exporter} (h : e.hooks.AroundTests) :
    (Exporter.leadingHooks.filterMap e.hookMember).filterMap declaredName? = e.hookNames := by
  have hmethods : ∀ m ∈ Hook.methods, (e.hookMember m.1).bind declaredName? =
      if (e.hooks.get m.1).isRendered then some m.2 else none := by
    intro m hm
    obtain ⟨lines, hget, -⟩ := h.get_eq m.1
    have hname : declaredName? (e.hooks.get m.1).render = some m.2 := by
      rw [hget]
      simp only [Hook.methods, List.mem_cons, List.not_mem_nil, or_false] at hm
      rcases hm with rfl | rfl | rfl | rfl <;> exact declaredName?_render rfl (List.all_eq_true.mp (by decide))
    rw [Exporter.hookMember]
    split
    · exact hname
    · rfl
  have hvariables : (e.hookMember .declareVariables).bind declaredName? = none := by
    obtain ⟨lines, hget, hempty⟩ := h.get_eq .declareVariables
    rw [Exporter.hookMember, hget, hempty (by decide)]
    decide
  have hleading : Exporter.leadingHooks = .declareVariables :: Hook.methods.map (·.1) := rfl
  rw [List.filterMap_filterMap, hleading, List.filterMap_cons, hvariables, List.filterMap_map,
    Exporter.hookNames, ← List.filterMap_eq_filter, List.map_filterMap]
  refine List.filterMap_congr fun m hm => (hmethods m hm).trans ?_
  cases h : (e.hooks.get m.1).isRendered <;> simp [Option.guard, h]

theorem declaredName?_helper : declaredName? Window.helper = some Window.helperName := by
  decide +kernel

namespace Exporter

variable {e : Exporter} {pool members : List Test} {options : RenderOptions} {name : String}

theorem isNameChar_of_mem_sources {m : String × Test} (hm : m ∈ sources members pool) :
    ∀ c ∈ m.1.toList, Text.isNameChar c = true := by
  rcases mem_sources.mp hm with ⟨t, -, rfl⟩ | ⟨i, -, rfl⟩
  · exact Identifier.isNameChar_of_mem_testMethodName
  · exact Identifier.isNameChar_of_mem_helperName

/-- The text of a class declares the methods around tests and what is made for the tests. -/
theorem methodNames_assembled (h : e.hooks.AroundTests) :
    e.methodNames (e.assembled members pool options) =
      e.hookNames ++ (e.assembled members pool options).declared.map (·.1) := by
  have hmethods : ((e.assembled members pool options).methods.map Method.lines).filterMap
      declaredName? = (sources members pool).map (·.1) := by
    rw [assembled, List.map_map, List.filterMap_map, ← List.filterMap_eq_map]
    exact List.filterMap_congr fun m hm => Method.declaredName?_lines (isNameChar_of_mem_sources hm)
  have hwindow (opens : Bool) : (if opens then [Window.helper] else []).filterMap declaredName? =
      if opens then [Window.helperName] else [] := by
    cases opens
    · rfl
    · rw [if_pos rfl, if_pos rfl, List.filterMap_cons, declaredName?_helper, List.filterMap_nil]
  have hlast : e.hookMember .declareMethods = none := by
    obtain ⟨lines, hget, hempty⟩ := h.get_eq .declareMethods
    rw [hookMember, hget, hempty (by decide)]
    decide
  rw [methodNames, Exporter.members, hlast, Option.toList_none, List.append_nil,
    List.filterMap_append, List.filterMap_append, hookMembers_names h, hmethods, hwindow,
    names_declared_assembled, List.append_assoc]

/-! ## Refused classes -/

theorem noteRun_fails {c : Class} {i : Nat} {fault : ExportError}
    (h : Class.noteRun pool c i = .error fault) : ∃ n, fault = .invalidName n := by
  unfold Class.noteRun at h
  dsimp only at h
  split at h
  · split at h
    · cases h
    · obtain rfl := Except.error.inj h
      exact ⟨_, rfl⟩
  · cases h

theorem addMethod_fails {c : Class} {name testName : String} {b : Body} {fault : ExportError}
    (hb : b.fault = none) (h : c.addMethod pool name testName b = .error fault) :
    ∃ n, fault = .invalidName n := by
  rw [Class.addMethod_eq] at h
  split at h
  · obtain rfl := Except.error.inj h
    exact ⟨testName, rfl⟩
  · rcases bind_eq_error.mp h with h | ⟨noted, -, h⟩
    · exact foldlM_fails (fun _ _ _ _ => noteRun_fails) h
    · rw [hb] at h
      cases h

theorem addMember_fails {c : Class} {t : Test} {fault : ExportError}
    (ht : (e.body pool options t).fault = none)
    (h : e.addMember pool options c t = .error fault) : ∃ n, fault = .invalidName n := by
  unfold addMember at h
  split at h
  · obtain rfl := Except.error.inj h
    exact ⟨_, rfl⟩
  · exact addMethod_fails ht h

theorem addHelpers_fails {made : List (String × Test)} {noted : List Nat} {fuel k : Nat}
    {fault : ExportError} (hc : Consistent pool made noted)
    (hreached : ∀ i ∈ noted, Reached pool members i)
    (hwritten : ∀ i, Reached pool members i → (e.body pool options (testAt pool i)).fault = none)
    (h : e.addHelpers pool options fuel k (e.classAfter pool options made noted) = .error fault) :
    ∃ n, fault = .invalidName n := by
  induction fuel generalizing k made noted with
  | zero => cases h
  | succ fuel ih =>
      have hqueue := helpers_classAfter e pool options made noted k
      cases hi : noted.eraseDups[k]? with
      | none =>
          rw [hi, Option.map_none] at hqueue
          rw [addHelpers, hqueue] at h
          cases h
      | some i =>
          rw [hi, Option.map_some] at hqueue
          rw [addHelpers_succ hqueue] at h
          have hi : Reached pool members i := hreached i (List.mem_eraseDups.mp (List.mem_of_getElem? hi))
          rcases bind_eq_error.mp h with h | ⟨next, hadd, h⟩
          · exact addMethod_fails (hwritten i hi) h
          · obtain ⟨-, hnext, rfl⟩ := (addMethod_eq_ok_iff hc).mp hadd
            refine ih hnext (fun j hj => ?_) h
            rcases List.mem_append.mp hj with hj | hj
            · exact hreached j hj
            · exact .onward hi hj

/-- If every step is written, a class is refused for a name and nothing else. -/
theorem assemble_fails {fault : ExportError}
    (hwritten : ∀ t, Involved pool members t → (e.body pool options t).fault = none)
    (h : e.assemble name members pool options = .error fault) : ∃ n, fault = .invalidName n := by
  rw [assemble_eq] at h
  split at h
  · obtain rfl := Except.error.inj h
    exact ⟨name, rfl⟩
  · rcases bind_eq_error.mp h with h | ⟨base, hbase, h⟩
    · exact foldlM_fails (fun t ht _ _ => addMember_fails (hwritten t (.inl ht))) h
    · obtain ⟨-, hconsistent, rfl⟩ := addAllMembers_eq_ok_iff.mp hbase
      rcases bind_eq_error.mp h with h | ⟨full, -, h⟩
      · exact addHelpers_fails hconsistent (fun i hi => .root hi)
          (fun i hi => hwritten _ (.inr ⟨i, hi, rfl⟩)) h
      · split at h
        · obtain rfl := Except.error.inj h
          exact ⟨_, rfl⟩
        · cases h

theorem Exportable.of_nodup_declared (named : (Identifier.sanitize name).isEmpty = false)
    (membersNamed : ∀ t ∈ members, (Identifier.sanitize t.name).isEmpty = false)
    (written : ∀ t, Involved pool members t → (e.body pool options t).fault = none)
    (h : ((e.assembled members pool options).declared.map (·.1)).Nodup) :
    e.Exportable name members pool options := by
  obtain ⟨hsources, hawait⟩ := nodup_declared_assembled_iff.mp h
  obtain ⟨htests, hhelpers, hboth⟩ := nodup_sources_iff.mp hsources
  exact ⟨named, membersNamed, written, htests, hhelpers, hboth, hawait⟩

/-! ## Clashes -/

/-- Clashes of names that are not looked for: of generated methods that differ in case only, and of
a helper method with a hook or with the method that awaits a window. -/
inductive Overlooked (e : Exporter) (pool members : List Test) : Prop
  | byCase {m m' : String × Test} (hm : m ∈ sources members pool) (hm' : m' ∈ sources members pool)
    (hne : m.1 ≠ m'.1) (hkey : Php.methodKey m.1 = Php.methodKey m'.1)
  | hook {i : Nat} {hook : String} (hi : Reached pool members i) (hhook : hook ∈ e.hookNames)
    (hkey : Php.methodKey (helperNameAt pool i) = Php.methodKey hook)
  | await {t : Test} {i : Nat} (ht : Involved pool members t) (ho : t.opensWindow = true)
    (hi : Reached pool members i)
    (hkey : Php.methodKey (helperNameAt pool i) = Php.methodKey Window.helperName)

theorem head?_methodKey_testMethodName (testName : String) :
    (Php.methodKey (Identifier.testMethodName testName)).toList.head? = some 't' := by
  simp [Php.methodKey, Identifier.testMethodName]

theorem methodKey_testMethodName_ne {testName other : String}
    (h : (Php.methodKey other).toList.head? ≠ some 't') :
    Php.methodKey (Identifier.testMethodName testName) ≠ Php.methodKey other := fun heq =>
  h (heq ▸ head?_methodKey_testMethodName testName)

/-- The names of hooks are apart from those of test methods and of the method that awaits a window. -/
theorem methodKey_hook {hook : String} (h : hook ∈ e.hookNames) :
    (Php.methodKey hook).toList.head? ≠ some 't' ∧
      Php.methodKey hook ≠ Php.methodKey Window.helperName := by
  have hall : ∀ m ∈ Hook.methods, (Php.methodKey m.2).toList.head? ≠ some 't' ∧
      Php.methodKey m.2 ≠ Php.methodKey Window.helperName := by
    decide +kernel
  obtain ⟨m, hm, rfl⟩ := List.mem_map.mp h
  exact hall m (List.mem_of_mem_filter hm)

theorem nodup_hookKeys : (e.hookNames.map Php.methodKey).Nodup := by
  have hall : ((Hook.methods.map (·.2)).map Php.methodKey).Nodup := by decide +kernel
  exact hall.sublist ((List.filter_sublist.map _).map _)

theorem nodup_methodKeys_iff (h : e.Exportable name members pool options)
    (hooks : e.hooks.AroundTests) :
    ((e.methodNames (e.assembled members pool options)).map Php.methodKey).Nodup ↔
      ¬ e.Overlooked pool members := by
  have hawait : (e.assembled members pool options).opensWindow = true ↔
      ∃ t, Involved pool members t ∧ t.opensWindow = true := opensWindow_assembled
  rw [methodNames_assembled hooks, names_declared_assembled, List.map_append, List.map_append,
    List.nodup_append, List.nodup_append]
  constructor
  · rintro ⟨-, ⟨hsources, -, hwindow⟩, hhooks⟩ hover
    cases hover with
    | byCase hm hm' hne hkey =>
        exact hne (List.inj_on_of_nodup_map hsources (List.mem_map_of_mem hm) (List.mem_map_of_mem hm') hkey)
    | @hook i hook hi hhook hkey =>
        have hmem : helperNameAt pool i ∈ (sources members pool).map (·.1) :=
          List.mem_map.mpr ⟨_, mem_sources.mpr (.inr ⟨i, hi, rfl⟩), rfl⟩
        exact hhooks _ (List.mem_map_of_mem hhook) _
          (List.mem_append_left _ (List.mem_map_of_mem hmem)) hkey.symm
    | @await t i ht ho hi hkey =>
        have hmem : helperNameAt pool i ∈ (sources members pool).map (·.1) :=
          List.mem_map.mpr ⟨_, mem_sources.mpr (.inr ⟨i, hi, rfl⟩), rfl⟩
        refine hwindow _ (List.mem_map_of_mem hmem) (Php.methodKey Window.helperName) ?_ hkey
        rw [if_pos (hawait.mpr ⟨t, ht, ho⟩)]
        exact List.mem_singleton.mpr rfl
  · -- Names of different origins are told apart by their first letters, but for helper methods.
    intro hover
    have hwindow : ∀ n ∈ (if (e.assembled members pool options).opensWindow then [Window.helperName]
        else []), n = Window.helperName ∧ ∃ t, Involved pool members t ∧ t.opensWindow = true := by
      intro n hn
      split at hn
      · next hopens => exact ⟨List.mem_singleton.mp hn, hawait.mp hopens⟩
      · simp at hn
    refine ⟨nodup_hookKeys, ⟨?_, by split <;> simp, ?_⟩, ?_⟩
    · refine h.nodup_sources.map_on fun n hn n' hn' hkey => ?_
      obtain ⟨m, hm, rfl⟩ := List.mem_map.mp hn
      obtain ⟨m', hm', rfl⟩ := List.mem_map.mp hn'
      by_contra hne
      exact hover (.byCase hm hm' hne hkey)
    · simp only [List.forall_mem_map]
      intro m hm n hn
      obtain ⟨rfl, t, ht, ho⟩ := hwindow n hn
      rcases mem_sources.mp hm with ⟨u, -, rfl⟩ | ⟨i, hi, rfl⟩
      · exact methodKey_testMethodName_ne (by decide)
      · exact fun hkey => hover (.await ht ho hi hkey)
    · simp only [List.forall_mem_append, List.forall_mem_map]
      refine fun hook hhook => ⟨fun m hm => ?_, fun n hn => ?_⟩
      · rcases mem_sources.mp hm with ⟨u, -, rfl⟩ | ⟨i, hi, rfl⟩
        · exact (methodKey_testMethodName_ne (methodKey_hook hhook).1).symm
        · exact fun hkey => hover (.hook hi hhook hkey.symm)
      · obtain ⟨rfl, -⟩ := hwindow n hn
        exact (methodKey_hook hhook).2

/-- The methods of a class may have one name for PHP just if a clash was overlooked. Where all steps
are written and all names can be, a class is refused for a name just if two of the methods made for
the tests have the same one. -/
theorem method_names_clash_iff (registry : Registry) (locators : LocatorWriter) (hooks : Hooks)
    (hooksAround : hooks.AroundTests) (name : String) (members pool : List Test)
    (options : RenderOptions) :
    let e : Exporter := ⟨registry, locators, hooks⟩
    (∀ c, e.assemble name members pool options = .ok c →
      (((e.methodNames c).map Php.methodKey).Nodup ↔ ¬ e.Overlooked pool members)) ∧
    ((∀ n ∈ name :: members.map (·.name), (Identifier.sanitize n).isEmpty = false) →
      (∀ t, Involved pool members t → (e.body pool options t).fault = none) →
      ((∃ n, e.assemble name members pool options = .error (.invalidName n)) ↔
        ¬ ((e.assembled members pool options).declared.map (·.1)).Nodup)) := by
  intro e
  constructor
  · intro c hc
    obtain ⟨h, rfl⟩ := assemble_eq_ok_iff.mp hc
    exact nodup_methodKeys_iff h hooksAround
  · intro hnamed hwritten
    obtain ⟨hname, hmembers⟩ := List.forall_mem_cons.mp hnamed
    rw [List.forall_mem_map] at hmembers
    constructor
    · rintro ⟨n, hn⟩ hnodup
      have hok := assemble_eq_ok_iff.mpr
        ⟨Exportable.of_nodup_declared hname hmembers hwritten hnodup, rfl⟩
      rw [hn] at hok
      cases hok
    · intro hrepeated
      cases hresult : e.assemble name members pool options with
      | ok c => exact absurd (assemble_eq_ok_iff.mp hresult).1.nodup_declared hrepeated
      | error fault =>
          obtain ⟨n, rfl⟩ := assemble_fails hwritten hresult
          exact ⟨n, rfl⟩

/-- A helper method with the name of a hook, which is not refused, and a repeated test method, which
is. -/
theorem method_names_clash_iff_of_before :
    let main : Test := ⟨"1", "main", [{ Step.blank with command := "run", target := "_before" }]⟩
    let before : Test := ⟨"2", "_before", []⟩
    let options : RenderOptions := ⟨"", false, false⟩
    let e : Exporter := ⟨.builtin, .webDriver, .initial⟩
    (∃ c, e.assemble "main" [main] [main, before] options = .ok c ∧
      e.methodNames c = ["_before", "_after", "testMain", "_before"] ∧
      ¬ ((e.methodNames c).map Php.methodKey).Nodup) ∧
    ∃ n, e.assemble "main" [main, main] [main, before] options = .error (.invalidName n) := by
  intro main before options e
  have he : e.registry = .builtin := rfl
  have hmain : ∀ s ∈ main.commands, ∃ f, (e.writeStep [main, before] options s).2 = .ok f :=
    List.forall_mem_singleton.mpr
      ⟨_, (writeStep_run_iff he rfl).mpr ⟨1, by decide, by decide, rfl⟩⟩
  have hbefore : ∀ s ∈ before.commands, ∃ f, (e.writeStep [main, before] options s).2 = .ok f := by
    simp [before]
  have hexportable : e.Exportable "main" [main] [main, before] options := by
    refine .of_pool (by decide) (by decide) ?_ (by decide) (by decide) (by decide) (by decide)
    exact List.forall_mem_cons.mpr ⟨hmain, List.forall_mem_cons.mpr
      ⟨hmain, List.forall_mem_singleton.mpr hbefore⟩⟩
  have hclass := assemble_eq_ok_iff.mpr ⟨hexportable, rfl⟩
  obtain ⟨hclash, -⟩ := method_names_clash_iff .builtin .webDriver .initial .initial "main" [main]
    [main, before] options
  obtain ⟨-, hrefused⟩ := method_names_clash_iff .builtin .webDriver .initial .initial "main"
    [main, main] [main, before] options
  refine ⟨⟨_, hclass, ?_, ?_⟩, ?_⟩
  · rw [methodNames_assembled .initial]
    decide +kernel
  · rw [hclash _ hclass, not_not]
    have hreached : Reached [main, before] [main] 1 := .root (by decide)
    have hrendered : "_before" ∈ e.hookNames := by decide +kernel
    exact .hook hreached hrendered (by decide)
  · refine (hrefused (by decide) (written_of_pool ?_)).mpr ?_
    · exact List.forall_mem_cons.mpr ⟨hmain, List.forall_mem_cons.mpr ⟨hmain,
        List.forall_mem_cons.mpr ⟨hmain, List.forall_mem_singleton.mpr hbefore⟩⟩⟩
    · rw [names_declared_assembled]
      decide +kernel

end Exporter

end CestWriter
