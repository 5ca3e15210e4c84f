import CestWriter.Proofs.ClassFile.Comments
import CestWriter.Proofs.Recording.Insertion

/-! # Disabled steps do nothing, if they open no window

A disabled step is one comment at the level that it meets. A class made with the step is the class
made without it and this comment, once in every method of the step's test. It is only the note that a
step opens a window which is heeded for disabled steps as well. -/

namespace CestWriter

/-! ## Lines between lines -/

/-- The lines of two lists in one, those of each list in their order. -/
inductive Interleaved : List Line → List Line → List Line → Prop
  | nil : Interleaved [] [] []
  | left (l : Line) {xs ys zs : List Line} (h : Interleaved xs ys zs) :
    Interleaved (l :: xs) ys (l :: zs)
  | right (l : Line) {xs ys zs : List Line} (h : Interleaved xs ys zs) :
    Interleaved xs (l :: ys) (l :: zs)

namespace Interleaved

variable {xs ys zs xs' ys' zs' : List Line}

theorem alone (xs : List Line) : Interleaved xs [] xs := by
  induction xs with
  | nil => exact .nil
  | cons l xs ih => exact ih.left l

theorem append (h : Interleaved xs ys zs) (h' : Interleaved xs' ys' zs') :
    Interleaved (xs ++ xs') (ys ++ ys') (zs ++ zs') := by
  induction h with
  | nil => exact h'
  | left l _ ih => exact ih.left l
  | right l _ ih => exact ih.right l

theorem between (front back : List Line) (h : Interleaved xs ys zs) :
    Interleaved (front ++ xs ++ back) ys (front ++ zs ++ back) := by
  simpa using ((alone front).append h).append (alone back)

theorem raise (n : Nat) (h : Interleaved xs ys zs) :
    Interleaved (xs.map (Line.raise n)) (ys.map (Line.raise n)) (zs.map (Line.raise n)) := by
  induction h with
  | nil => exact .nil
  | left l _ ih => exact ih.left (l.raise n)
  | right l _ ih => exact ih.right (l.raise n)

/-- Lines that stand between the lines of members stand between the lines of the class. -/
theorem memberLines {α : Type} {plain added all : α → List Line} {parts : List α}
    (h : ∀ p ∈ parts, Interleaved (plain p) (added p) (all p)) :
    Interleaved (Exporter.memberLines (parts.map plain))
      ((parts.flatMap added).map (Line.raise 1)) (Exporter.memberLines (parts.map all)) := by
  unfold Exporter.memberLines
  induction parts with
  | nil => exact .nil
  | cons p rest ih =>
      obtain ⟨hp, hrest⟩ := List.forall_mem_cons.mp h
      have ih := ih hrest
      cases rest with
      | nil => simpa using hp.raise 1
      | cons q rest =>
          simp only [List.map_cons, List.intersperse_cons_cons, List.flatten_cons,
            List.flatMap_cons, List.map_append] at ih ⊢
          exact (hp.raise 1).append ((alone [⟨0, ""⟩]).append ih)

theorem memberLines_around {α : Type} {plain added all : α → List Line} {parts : List α}
    (front back : List (List Line)) (h : ∀ p ∈ parts, Interleaved (plain p) (added p) (all p)) :
    Interleaved (Exporter.memberLines (front ++ parts.map plain ++ back))
      ((parts.flatMap added).map (Line.raise 1))
      (Exporter.memberLines (front ++ parts.map all ++ back)) := by
  let mixed : List (List Line ⊕ α) := front.map .inl ++ parts.map .inr ++ back.map .inl
  have hmixed : ∀ p ∈ mixed, Interleaved (Sum.elim id plain p)
      (Sum.elim (fun _ => []) added p) (Sum.elim id all p) := by
    intro p hp
    cases p with
    | inl lines => exact alone lines
    | inr p => exact h p (by simpa [mixed] using hp)
  have hnone (xs : List (List Line)) : xs.flatMap (fun _ => ([] : List Line)) = [] := by simp
  simpa [mixed, List.flatMap_map, hnone] using memberLines hmixed

end Interleaved

namespace Exporter

variable {e : Exporter} {pool : List Test} {options : RenderOptions}

/-! ## Steps in two parts -/

/-- The level that placed steps lead to. -/
def levelAfter (level : Level) (placed : List Placed) : Level :=
  placed.foldl (fun level p => (level.place p.fragment).2) level

namespace Placement

variable {level : Level} {first last : List Step}

theorem append {before after : List Placed} (h : e.Placement pool options level first before)
    (h' : e.Placement pool options (levelAfter level before) last after) :
    e.Placement pool options level (first ++ last) (before ++ after) := by
  induction h with
  | nil => exact h'
  | cons hs _ ih => exact .cons hs (ih h')

theorem exists_append {placed : List Placed}
    (h : e.Placement pool options level (first ++ last) placed) :
    ∃ before after, placed = before ++ after ∧ e.Placement pool options level first before ∧
      e.Placement pool options (levelAfter level before) last after := by
  induction first generalizing level placed with
  | nil => exact ⟨[], placed, rfl, .nil level, h⟩
  | cons s first ih =>
      cases h with
      | cons hs hrest =>
          obtain ⟨before, after, rfl, hbefore, hafter⟩ := ih hrest
          exact ⟨_ :: before, after, rfl, .cons hs hbefore, hafter⟩

/-- A disabled step among placed steps leaves all of them where they are. -/
theorem insert {before after : List Placed} {d : Step} (hd : d.isDisabled = true)
    (h : e.Placement pool options level first before)
    (h' : e.Placement pool options (levelAfter level before) last after) :
    e.Placement pool options level (first ++ d :: last)
      (before ++ ⟨d, levelAfter level before, .statement (Registry.disabledComment d)⟩ :: after) := by
  refine h.append (.cons (congrArg Prod.snd (writeStep_disabled hd)) ?_)
  rw [place_disabled hd]
  exact h'

end Placement

/-! ## Bodies -/

/-- The lines of a body and those of the body with a disabled step after the first `k` steps: one
comment more, at the level `n` that the steps before it have reached. -/
def GainsComment (e : Exporter) (pool : List Test) (options : RenderOptions) (t : Test) (k : Nat)
    (d : Step) (n : Nat) (plain gained : List Line) : Prop :=
  ∃ before after, e.Placement pool options.silent .start t.commands (before ++ after) ∧
    before.map (·.step) = t.commands.take k ∧
    n = (levelAfter .start before).depth ∧
    plain = (e.hooks.get .inEachBegin).render ++ before.flatMap Placed.lines ++
      (after.flatMap Placed.lines ++ (e.hooks.get .inEachEnd).render) ∧
    gained = (e.hooks.get .inEachBegin).render ++ before.flatMap Placed.lines ++
      ⟨n, Registry.disabledComment d⟩ ::
        (after.flatMap Placed.lines ++ (e.hooks.get .inEachEnd).render)

theorem GainsComment.interleaved {t : Test} {k n : Nat} {d : Step} {plain gained : List Line}
    (h : e.GainsComment pool options t k d n plain gained) :
    Interleaved plain [⟨n, Registry.disabledComment d⟩] gained := by
  obtain ⟨before, after, -, -, -, rfl, rfl⟩ := h
  exact (Interleaved.alone _).append (.right _ (.alone _))

theorem Placement.silent_lines {t : Test} {placed : List Placed}
    (h : e.Placement pool options.silent .start t.commands placed) :
    (e.body pool options.silent t).lines = (e.hooks.get .inEachBegin).render ++
      placed.flatMap Placed.lines ++ (e.hooks.get .inEachEnd).render := by
  rw [h.body_eq, bodyLines, placedLines_silent]
  rfl

theorem exists_gainsComment {t : Test} {d : Step} (hd : d.isDisabled = true) (k : Nat)
    (h : (e.body pool options.silent t).fault = none) :
    ∃ n, e.GainsComment pool options t k d n (e.body pool options.silent t).lines
      (e.body pool options.silent (t.withStep k d)).lines := by
  obtain ⟨placed, hplaced⟩ := fault_eq_none_iff.mp h
  have hsplit := hplaced
  rw [← List.take_append_drop k t.commands] at hsplit
  obtain ⟨before, after, rfl, hbefore, hafter⟩ := hsplit.exists_append
  have hgained : e.Placement pool options.silent .start (t.withStep k d).commands _ :=
    hbefore.insert hd hafter
  refine ⟨_, before, after, hplaced, hbefore.steps_eq, rfl, ?_, ?_⟩
  · rw [hplaced.silent_lines]
    simp
  · rw [hgained.silent_lines, List.flatMap_append, List.flatMap_cons, Placed.lines,
      place_disabled hd]
    simp

/-! ## A pool that is changed without notice -/

section KeepsRuns

variable {f : Test → Test}

theorem writeStep_map (h : KeepsRuns f) (pool : List Test) :
    e.writeStep (pool.map f) options = e.writeStep pool options := by
  funext s
  have hname (i : Nat) : ((pool.map f)[i]?.getD .blank).name = (pool[i]?.getD .blank).name :=
    h.name_testAt_map pool i
  simp only [writeStep, h.findTestIndex?_map, hname]

theorem body_map (h : KeepsRuns f) (pool : List Test) :
    e.body (pool.map f) options = e.body pool options := by
  have hwalk (number : Nat) (level : Level) (steps : List Step) :
      e.walk (pool.map f) options number level steps = e.walk pool options number level steps := by
    induction steps generalizing number level with
    | nil => rfl
    | cons s rest ih =>
        rw [walk, walk, writeStep_map h]
        simp only [ih]
  funext t
  rw [body, body, hwalk]

theorem helperNameAt_map (h : KeepsRuns f) (pool : List Test) (i : Nat) :
    helperNameAt (pool.map f) i = helperNameAt pool i := by
  rw [helperNameAt, helperNameAt, h.name_testAt_map]

/-- The methods keep their names and their order, and are made of the changed tests. -/
theorem sources_map (h : KeepsRuns f) (members pool : List Test) :
    sources (members.map f) (pool.map f) = (sources members pool).map fun m => (m.1, f m.2) := by
  have hmember : testMade ∘ f = fun t => (Identifier.testMethodName t.name, f t) := by
    funext t
    rw [Function.comp_apply, testMade, h.name_eq]
  have hhelper (i : Nat) (hi : i ∈ runOrder pool members) :
      helperMade (pool.map f) i = (helperNameAt pool i, f (testAt pool i)) := by
    rw [helperMade, helperNameAt_map h, KeepsRuns.testAt_map f (mem_runOrder.mp hi).lt]
  rw [sources, sources, h.runOrder_map, List.map_map, List.map_append, List.map_map, List.map_map]
  rw [hmember, List.map_congr_left hhelper]
  rfl

/-- What can be exported can be exported after the change, if all steps can still be written and
the method that awaits a window keeps its name for itself. -/
theorem exportable_map_iff {name : String} {members : List Test} (h : KeepsRuns f)
    (hplain : e.Exportable name members pool options)
    (hwritten : ∀ t, Involved pool members t → (e.body pool options (f t)).fault = none) :
    e.Exportable name (members.map f) (pool.map f) options ↔
      ((∃ t, Involved pool members t ∧ (f t).opensWindow = true) →
        ∀ i, Reached pool members i → helperNameAt pool i ≠ Window.helperName) := by
  have hopens : (∃ t, Involved (pool.map f) (members.map f) t ∧ t.opensWindow = true) ↔
      ∃ t, Involved pool members t ∧ (f t).opensWindow = true := h.exists_involved_map_iff
  constructor
  · intro hchanged ho i hi
    rw [← helperNameAt_map h]
    exact hchanged.awaitApart (hopens.mpr ho) i (h.reached_map_iff.mpr hi)
  · intro hawait
    refine ⟨hplain.named, ?_, ?_, ?_, ?_, ?_, ?_⟩
    · simpa [h.name_eq] using hplain.membersNamed
    · intro t ht
      obtain ⟨u, hu, rfl⟩ := h.involved_map_iff.mp ht
      rw [body_map h]
      exact hwritten u hu
    · simpa [h.name_eq, Function.comp_def] using hplain.testsApart
    · simpa only [h.reached_map_iff, helperNameAt_map h] using hplain.helpersApart
    · simpa [h.reached_map_iff, helperNameAt_map h, h.name_eq] using hplain.testApartFromHelper
    · simpa only [hopens, h.reached_map_iff, helperNameAt_map h] using hawait

end KeepsRuns

/-! ## Classes -/

variable {members : List Test} {name : String} {t : Test} {k n : Nat} {d : Step}

/-- A method without the disabled step and with it: a method that is made of the step's test has one
comment more, and any other is the same. -/
structure MethodGains (e : Exporter) (pool : List Test) (options : RenderOptions) (t : Test) (k : Nat)
    (d : Step) (n : Nat) (source : Test) (plain gained : Method) : Prop where
  name_eq : gained.name = plain.name
  given : source = t → e.GainsComment pool options t k d n plain.body gained.body
  other : source ≠ t → gained.body = plain.body

/-- A class without the disabled step and with it. The method that awaits a window is there for the
note of the step as well; but for this method, the lines of the file are the same and one comment in
each method that is made of the step's test. -/
structure ClassGains (e : Exporter) (name : String) (members pool : List Test)
    (options : RenderOptions) (t : Test) (k : Nat) (d : Step) (n : Nat) (plain gained : Class) :
    Prop where
  methods : List.Forall₂ (fun (source, m) m' => e.MethodGains pool options t k d n source.2 m m')
    ((sources members pool).zip plain.methods) gained.methods
  helpers_eq : gained.helpers = plain.helpers
  opensWindow_iff : gained.opensWindow = true ↔
    plain.opensWindow = true ∨ Involved pool members t ∧ d.opensWindow = true
  lines : Interleaved (e.layout name { plain with opensWindow := gained.opensWindow })
    (((sources members pool).filter (·.2 = t)).map fun _ => ⟨n + 2, Registry.disabledComment d⟩)
    (e.layout name gained)

theorem MethodGains.interleaved {source : Test} {m m' : Method}
    (h : e.MethodGains pool options t k d n source m m') :
    Interleaved m.lines (if source = t then [⟨n + 1, Registry.disabledComment d⟩] else [])
      m'.lines := by
  rw [Method.lines, Method.lines, h.name_eq]
  by_cases hs : source = t
  · rw [if_pos hs]
    exact .left _ (((h.given hs).interleaved.raise 1).append (.alone _))
  · rw [if_neg hs, h.other hs]
    exact .alone _

/-- Lines that stand between the lines of methods stand between the lines of the file. -/
theorem layout_interleaved {α : Type} {c c' : Class} {plain gained : α → Method}
    {added : α → List Line} {parts : List α} (hplain : c.methods = parts.map plain)
    (hgained : c'.methods = parts.map gained) (hopens : c'.opensWindow = c.opensWindow)
    (h : ∀ p ∈ parts, Interleaved (plain p).lines (added p) (gained p).lines) :
    Interleaved (e.layout name c) ((parts.flatMap added).map (Line.raise 1)) (e.layout name c') := by
  have hmembers := Interleaved.memberLines_around (leadingHooks.filterMap e.hookMember)
    ((if c.opensWindow then [Window.helper] else []) ++ (e.hookMember .declareMethods).toList) h
  have hlines (m : α → Method) : (parts.map m).map Method.lines = parts.map fun p => (m p).lines :=
    List.map_map
  unfold layout Exporter.members
  rw [hplain, hgained, hopens, hlines, hlines]
  simp only [← List.append_assoc] at hmembers
  exact hmembers.between _ _

/-! ## The export with the step -/

theorem opensWindow_giveStep {u : Test} : (t.giveStep k d u).opensWindow = true ↔
    u.opensWindow = true ∨ u = t ∧ d.opensWindow = true := by
  by_cases hu : u = t
  · subst hu
    simp only [Test.giveStep_self, Test.opensWindow, List.any_eq_true, Test.mem_commands_withStep,
      true_and, or_and_right, exists_or, exists_eq_left]
  · simp [Test.giveStep_of_ne hu, hu]

/-- A window is opened with the step if one was opened without it, or if the step is noted to open
one and stands in a test that the class is made of. -/
theorem opens_giveStep_iff :
    (∃ u, Involved pool members u ∧ (t.giveStep k d u).opensWindow = true) ↔
      (∃ u, Involved pool members u ∧ u.opensWindow = true) ∨
        Involved pool members t ∧ d.opensWindow = true := by
  simp only [opensWindow_giveStep]
  constructor
  · rintro ⟨u, hu, ho | ⟨rfl, ho⟩⟩
    · exact .inl ⟨u, hu, ho⟩
    · exact .inr ⟨hu, ho⟩
  · rintro (⟨u, hu, ho⟩ | ⟨ht, ho⟩)
    · exact ⟨u, hu, .inl ho⟩
    · exact ⟨t, ht, .inr ⟨rfl, ho⟩⟩

theorem fault_giveStep (hd : d.isDisabled = true) {u : Test}
    (h : (e.body pool options u).fault = none) :
    (e.body pool options (t.giveStep k d u)).fault = none := by
  by_cases hu : u = t
  · subst hu
    rw [fault_eq_none_iff_written] at h ⊢
    intro s hs
    rw [Test.giveStep_self, Test.mem_commands_withStep] at hs
    rcases hs with hs | rfl
    · exact h s hs
    · exact ⟨_, congrArg Prod.snd (writeStep_disabled hd)⟩
  · rwa [Test.giveStep_of_ne hu]

/-- One comment for each method that is made of the step's test, at its level in the file. -/
theorem raised_comments (made : List (String × Test)) :
    (made.flatMap fun source =>
        if source.2 = t then [(⟨n + 1, Registry.disabledComment d⟩ : Line)] else []).map
          (Line.raise 1) =
      (made.filter (·.2 = t)).map fun _ => ⟨n + 2, Registry.disabledComment d⟩ := by
  induction made with
  | nil => rfl
  | cons source rest ih => by_cases hs : source.2 = t <;> simp [hs, ← ih, Line.raise]

/-- The methods of the class with the step are made of the changed tests. -/
theorem classGains_assembled (hd : d.isDisabled = true)
    (hgains : ∀ source ∈ sources members pool, source.2 = t → e.GainsComment pool options t k d n
      (e.body pool options.silent t).lines (e.body pool options.silent (t.withStep k d)).lines) :
    e.ClassGains name members pool options t k d n (e.assembled members pool options.silent)
      (e.assembled (members.map (t.giveStep k d)) (pool.map (t.giveStep k d)) options.silent) := by
  have hkeeps : KeepsRuns (t.giveStep k d) := t.keepsRuns_giveStep k (command_ne_run hd)
  let plain (source : String × Test) : Method :=
    ⟨source.1, (e.body pool options.silent source.2).lines⟩
  let gained (source : String × Test) : Method :=
    ⟨source.1, (e.body pool options.silent (t.giveStep k d source.2)).lines⟩
  have hplain : (e.assembled members pool options.silent).methods =
      (sources members pool).map plain := rfl
  have hgained : (e.assembled (members.map (t.giveStep k d)) (pool.map (t.giveStep k d))
      options.silent).methods = (sources members pool).map gained := by
    rw [assembled, sources_map hkeeps, List.map_map, body_map hkeeps]
    rfl
  have hmethod : ∀ source ∈ sources members pool,
      e.MethodGains pool options t k d n source.2 (plain source) (gained source) := by
    intro source hsource
    refine ⟨rfl, ?_, ?_⟩
    · intro ht
      have hgains := hgains source hsource ht
      simpa only [plain, gained, ht, Test.giveStep_self] using hgains
    · intro ht
      simp only [plain, gained, Test.giveStep_of_ne ht]
  refine ⟨?_, ?_, ?_, ?_⟩
  · have hzip : (sources members pool).zip ((sources members pool).map plain) =
        (sources members pool).map fun source => (source, plain source) := by
      simpa using List.zip_map' (f := id) (g := plain) (l := sources members pool)
    rw [hplain, hgained, hzip, List.forall₂_map_left_iff, List.forall₂_map_right_iff]
    exact List.forall₂_same.mpr hmethod
  · rw [assembled, assembled, hkeeps.runOrder_map]
    simp only [helperNameAt_map hkeeps]
  · rw [opensWindow_assembled, opensWindow_assembled, hkeeps.exists_involved_map_iff,
      opens_giveStep_iff]
  · rw [← raised_comments]
    exact layout_interleaved hplain hgained rfl fun source hs => (hmethod source hs).interleaved

/-- A disabled step that opens no window is inert. The export with the step fails where the step is
noted to open a window, stands in a test that the class is made of, and one of the helper methods has
the name of the method that awaits a window. Otherwise it succeeds, and its class has one comment
more in each method that is made of the step's test. This is all, unless the note of the step is the
first to ask for the method that awaits a window. -/
theorem disabled_step_inert_iff {c : Class}
    (h : e.assemble name members pool options.silent = .ok c) (t : Test) (k : Nat) {d : Step}
    (hd : d.isDisabled = true) :
    let exported := e.assemble name (members.map (t.giveStep k d)) (pool.map (t.giveStep k d))
      options.silent
    ((∃ c', exported = .ok c') ↔ (d.opensWindow = true → Involved pool members t →
      ∀ i, Reached pool members i → helperNameAt pool i ≠ Window.helperName)) ∧
    (∀ c', exported = .ok c' → ∃ n, e.ClassGains name members pool options t k d n c c') ∧
    ((∃ c' n, exported = .ok c' ∧ e.ClassGains name members pool options t k d n c c' ∧
        c'.opensWindow = c.opensWindow) ↔
      (d.opensWindow = true → Involved pool members t → c.opensWindow = true)) := by
  intro exported
  obtain ⟨hexportable, rfl⟩ := assemble_eq_ok_iff.mp h
  have hkeeps : KeepsRuns (t.giveStep k d) := t.keepsRuns_giveStep k (command_ne_run hd)
  have hok : (∃ c', exported = .ok c') ↔ (d.opensWindow = true → Involved pool members t →
      ∀ i, Reached pool members i → helperNameAt pool i ≠ Window.helperName) := by
    have hnext := exportable_map_iff hkeeps hexportable fun u hu =>
      fault_giveStep hd (hexportable.written u hu)
    rw [opens_giveStep_iff] at hnext
    simp only [exported, assemble_eq_ok_iff, exists_and_left, exists_eq, and_true, hnext]
    constructor
    · intro hawait ho ht
      exact hawait (.inr ⟨ht, ho⟩)
    · rintro hawait (ho | ⟨ht, ho⟩)
      · exact hexportable.awaitApart ho
      · exact hawait ho ht
  have hgains : ∀ c', exported = .ok c' → ∃ n, e.ClassGains name members pool options t k d n
      (e.assembled members pool options.silent) c' := by
    intro c' hc'
    obtain ⟨-, rfl⟩ := assemble_eq_ok_iff.mp hc'
    by_cases ht : Involved pool members t
    · obtain ⟨n, hn⟩ := exists_gainsComment hd k (hexportable.written t ht)
      exact ⟨n, classGains_assembled hd fun _ _ _ => hn⟩
    · refine ⟨0, classGains_assembled hd fun source hsource hs => absurd ?_ ht⟩
      exact involved_iff_mem_sources.mpr ⟨source, hsource, hs⟩
  refine ⟨hok, hgains, ?_⟩
  constructor
  · rintro ⟨c', n, -, hgains, hopens⟩ ho ht
    exact hopens ▸ hgains.opensWindow_iff.mpr (.inr ⟨ht, ho⟩)
  · intro hopens
    have hawait : d.opensWindow = true → Involved pool members t →
        ∀ i, Reached pool members i → helperNameAt pool i ≠ Window.helperName := fun ho ht =>
      hexportable.awaitApart (opensWindow_assembled.mp (hopens ho ht))
    obtain ⟨c', hc'⟩ := hok.mpr hawait
    obtain ⟨n, hn⟩ := hgains c' hc'
    refine ⟨c', n, hc', hn, Bool.eq_iff_iff.mpr ?_⟩
    rw [hn.opensWindow_iff, or_iff_left_of_imp fun ⟨ht, ho⟩ => hopens ho ht]

/-- A disabled step in a loop that is noted to open a window. -/
theorem disabled_step_inert_iff_of_window :
    let first : Step := { Step.blank with command := "do" }
    let last : Step := { Step.blank with command := "end" }
    let off : Step := { Step.blank with command := "//click", opensWindow := true }
    let t : Test := ⟨"1", "main", [first, last]⟩
    let options : RenderOptions := ⟨"", false, false⟩
    let e : Exporter := ⟨.builtin, .webDriver, .initial⟩
    let members := [t].map (t.giveStep 1 off)
    ∃ c c' n, e.assemble "main" [t] [] options.silent = .ok c ∧ off.isDisabled = true ∧
      e.assemble "main" members [] options.silent = .ok c' ∧
      e.ClassGains "main" [t] [] options t 1 off n c c' ∧
      c.opensWindow = false ∧ c'.opensWindow = true := by
  intro first last off t options e members
  have hdo : Action.ofCommand? first.command = some .doLoop := by decide +kernel
  have hend : Action.ofCommand? last.command = some .endBlock := by decide +kernel
  have hwritten : ∀ s ∈ t.commands, ∃ f, (e.writeStep [] options.silent s).2 = .ok f := by
    have hfirst : Registry.builtin.emit (e.setting options.silent) first = .ok _ :=
      (Registry.emit_builtin_eq_ok_iff (by decide)).mpr ⟨_, _, hdo, rfl, rfl⟩
    have hlast : Registry.builtin.emit (e.setting options.silent) last = .ok _ :=
      (Registry.emit_builtin_eq_ok_iff (by decide)).mpr ⟨_, _, hend, rfl, rfl⟩
    have hwrite : e.writeStep [] options.silent first = _ ∧ e.writeStep [] options.silent last = _ :=
      ⟨writeStep_eq (by decide) hfirst, writeStep_eq (by decide) hlast⟩
    refine List.forall_mem_cons.mpr ⟨⟨_, congrArg Prod.snd hwrite.1⟩, ?_⟩
    exact List.forall_mem_singleton.mpr ⟨_, congrArg Prod.snd hwrite.2⟩
  have hexportable : e.Exportable "main" [t] [] options.silent := by
    refine .of_pool (by decide) (by decide) ?_ (by decide) (by decide) (by decide) (by decide)
    exact List.forall_mem_singleton.mpr hwritten
  have hclass := assemble_eq_ok_iff.mpr ⟨hexportable, rfl⟩
  have hoff : off.isDisabled = true := by decide
  obtain ⟨hok, hgains, -⟩ := disabled_step_inert_iff hclass t 1 hoff
  obtain ⟨c', hc'⟩ := hok.mpr fun _ _ i hi => absurd hi.lt (by simp)
  obtain ⟨n, hn⟩ := hgains c' hc'
  refine ⟨_, c', n, hclass, hoff, hc', hn, by decide, hn.opensWindow_iff.mpr (.inr ?_)⟩
  exact ⟨.inl (by simp), rfl⟩

end Exporter

end CestWriter
