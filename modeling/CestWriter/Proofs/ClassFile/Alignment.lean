import CestWriter.Proofs.ClassFile.Assembly
import CestWriter.Proofs.Layout.Nesting

/-! # Levels and blocks of a whole class file -/

namespace CestWriter

namespace Exporter

variable {e : Exporter} {pool : List Test} {options : RenderOptions}

/-! ## Bodies -/

theorem mark?_comments {level number : Nat} {s : Step} :
    ∀ l ∈ comments options level number s, l.mark? = none := fun l hl =>
  Line.mark?_comment (Text.startsWith_trans (by decide) (startsWith_comments l hl))

theorem mark?_traceHead {t : Test} : ∀ l ∈ traceHead options t, l.mark? = none := fun l hl =>
  Line.mark?_comment (Text.startsWith_trans (by decide) (startsWith_traceHead l hl))

/-- The fragment that a step of a body is written as, or the empty one. -/
def written (e : Exporter) (pool : List Test) (options : RenderOptions) (s : Step) : Fragment :=
  (e.writeStep pool options s).2.toOption.getD (.statement "")

/-- A body without a fault has the lines of its fragments, with comments between them. -/
theorem walk_aligned {number : Nat} {level : Level} {steps : List Step}
    (h : (e.walk pool options number level steps).fault = none) :
    (∀ s ∈ steps, (e.writeStep pool options s).2 = .ok (e.written pool options s)) ∧
      ∀ d x, Aligned d (level.placeAll (steps.map (e.written pool options))).1 x →
        Aligned d (e.walk pool options number level steps).lines x := by
  induction steps generalizing number level with
  | nil => exact ⟨by simp, fun _ _ h => h⟩
  | cons s rest ih =>
      rw [walk] at h ⊢
      cases hw : e.writeStep pool options s with
      | mk run result =>
          rw [hw] at h
          cases result with
          | error fault => simp at h
          | ok f =>
              have hf : e.written pool options s = f := by
                rw [written, hw, Except.toOption, Option.getD_some]
              obtain ⟨hall, haligned⟩ := ih h
              constructor
              · intro t hm
                rcases List.mem_cons.mp hm with rfl | hm
                · rw [hw, hf]
                · exact hall t hm
              · intro d x hx
                rw [List.map_cons, hf, Level.placeAll] at hx
                obtain ⟨mid, hplaced, hrest⟩ := Aligned.append_iff.mp hx
                have hcomments : Aligned d (comments options (level.base f) number s) d :=
                  .of_unmarked mark?_comments d
                exact (hcomments.append hplaced).append (haligned mid x hrest)

theorem walk_silent {number : Nat} {level : Level} {steps : List Step}
    (h : ∀ s ∈ steps, ∃ f, e.writeStep pool options s = (none, .ok f))
    (hw : ∀ s ∈ steps, s.opensWindow = false) :
    (e.walk pool options number level steps).runs = [] ∧
      (e.walk pool options number level steps).fault = none ∧
      (e.walk pool options number level steps).opensWindow = false := by
  induction steps generalizing number level with
  | nil => exact ⟨rfl, rfl, rfl⟩
  | cons s rest ih =>
      obtain ⟨f, hf⟩ := h s (by simp)
      have hrest := @ih (number + 1) (level.place f).2 (fun t hm => h t (by simp [hm]))
        (fun t hm => hw t (by simp [hm]))
      simpa [walk, hf, hw s (by simp)] using hrest

/-- A test whose steps are written, run no test and open no window. -/
theorem body_silent {t : Test}
    (h : ∀ s ∈ t.commands, ∃ f, e.writeStep pool options s = (none, .ok f))
    (hw : ∀ s ∈ t.commands, s.opensWindow = false) :
    (e.body pool options t).runs = [] ∧ (e.body pool options t).fault = none ∧
      (e.body pool options t).opensWindow = false :=
  walk_silent h hw

/-- A step that runs a test is written for another target, which leaves its role. -/
theorem writeStep_plays {s : Step} {f : Fragment} (he : e.registry = .builtin)
    (hw : s.role ≠ .plain → s.opensWindow = false) (h : (e.writeStep pool options s).2 = .ok f) :
    f.Plays s.role := by
  have hemit : ∀ t : Step, t.role = s.role → t.opensWindow = s.opensWindow →
      (e.registry.emit (e.setting options) t).mapError ExportError.emit = .ok f → f.Plays s.role := by
    intro t hr ho ht
    rw [← hr]
    exact Registry.emit_builtin_plays (by rwa [hr, ho]) (he ▸ mapError_eq_ok_iff.mp ht)
  unfold writeStep at h
  by_cases hrun : s.command = "run"
  · rw [if_pos hrun] at h
    cases hfind : findTestIndex? pool s.target with
    | none => simp [hfind] at h
    | some i =>
        rw [hfind] at h
        exact hemit { s with target := (pool[i]?.getD .blank).name } rfl rfl h
  · rw [if_neg hrun] at h
    exact hemit s rfl rfl h

/-- The body of a test whose commands are properly nested. -/
theorem body_aligned {t : Test} {p : Program} (he : e.registry = .builtin)
    (hooks : e.hooks = .initial) (hp : p.steps = t.commands)
    (h : (e.body pool options t).fault = none) :
    Aligned 0 (e.body pool options t).lines 0 := by
  obtain ⟨hwritten, haligned⟩ := walk_aligned h
  have hplays : ∀ s ∈ p.steps, (e.written pool options s).Plays s.role := fun s hm =>
    writeStep_plays he (p.noWindow s hm) (hwritten s (hp ▸ hm))
  obtain ⟨lines, hplace, hlines, -⟩ := p.spans hplays 0 .nil []
  have hsteps : Aligned 0 (e.walk pool options 1 .start t.commands).lines 0 := by
    apply haligned
    rw [← hp]
    change Aligned 0 (Level.placeAll ⟨0, false⟩ _).1 0
    rwa [hplace]
  have hbegin : (e.hooks.get .inEachBegin).render = [] := by rw [hooks]; rfl
  have hend : (e.hooks.get .inEachEnd).render = [] := by rw [hooks]; rfl
  have hhead : Aligned 0 (traceHead options t) 0 := .of_unmarked mark?_traceHead 0
  simpa [body, hbegin, hend] using hhead.append hsteps

end Exporter

/-! ## Methods -/

/-- Every method of a class has an aligned body. -/
def Class.IsAligned (c : Class) : Prop :=
  ∀ m ∈ c.methods, Aligned 0 m.body 0

/-- Classes of properly nested tests have aligned methods, those of the tests that are run from
others included. Tests of the pool that nobody runs do not count. -/
theorem Exporter.assemble_aligned {e : Exporter} {name : String} {members pool : List Test}
    {options : RenderOptions} {c : Class} (he : e.registry = .builtin) (hooks : e.hooks = .initial)
    (ht : ∀ t, Involved pool members t → ∃ p : Program, p.steps = t.commands)
    (h : e.assemble name members pool options = .ok c) : c.IsAligned := by
  obtain ⟨hexportable, rfl⟩ := assemble_eq_ok_iff.mp h
  intro m hm
  obtain ⟨source, hsource, rfl⟩ := List.mem_map.mp hm
  have hinvolved : Involved pool members source.2 :=
    involved_iff_mem_sources.mpr ⟨source, hsource, rfl⟩
  obtain ⟨p, hp⟩ := ht source.2 hinvolved
  exact body_aligned he hooks hp (hexportable.written _ hinvolved)

/-! ## Lines of fixed text -/

/-- A line of ordinary text, by its characters. -/
theorem Aligned.ordinary {d e : Nat} {text : List Char} {lines : List Line} {first last : Char}
    (hf : text.head? = some first) (hl : text.getLast? = some last)
    (hc : first ≠ '/' ∧ first ≠ '\x7d' ∧ last ≠ '\x7b') (h : Aligned d lines e) :
    Aligned d (⟨d, String.ofList text⟩ :: lines) e := by
  have hf' : (String.ofList text).toList.head? = some first := by rwa [String.toList_ofList]
  have hl' : (String.ofList text).toList.getLast? = some last := by rwa [String.toList_ofList]
  have hmark := Line.mark?_of_ends (l := ⟨d, String.ofList text⟩) hf' hl' hc.1
  rw [beq_eq_false_iff_ne.mpr hc.2.1, beq_eq_false_iff_ne.mpr hc.2.2] at hmark
  refine .cons ?_ h
  rw [hmark]
  simp [Mark.pass, Mark.step]

theorem Aligned.blank {e : Nat} {lines : List Line} (h : Aligned 0 lines e) :
    Aligned 0 (⟨0, ""⟩ :: lines) e :=
  .cons (by decide) h

/-! ## The file -/

/-- A header line, lines one level deeper, and a closing brace. -/
theorem Aligned.enclosed {header : String} {lines : List Line} {first : Char}
    (hf : header.toList.head? = some first) (hl : header.toList.getLast? = some '\x7b')
    (hc : first ≠ '/' ∧ first ≠ '\x7d') (h : Aligned 0 lines 0) :
    Aligned 0 (⟨0, header⟩ :: lines.map (Line.raise 1) ++ [⟨0, "\x7d"⟩]) 0 := by
  have hmark := Line.mark?_of_ends (l := ⟨0, header⟩) hf hl hc.1
  have hopen : Aligned 0 [⟨0, header⟩] 1 := by
    rw [Aligned, List.map_singleton, hmark, beq_eq_false_iff_ne.mpr hc.2]
    rfl
  have hclose : Aligned 1 [⟨0, "\x7d"⟩] 0 := by decide
  exact (hopen.append (h.raise 1)).append hclose

/-- The last character of a text that ends in a given one. -/
theorem Text.getLast?_append {lead rest : String} {c : Char}
    (h : rest.toList.getLast? = some c) : (lead ++ rest).toList.getLast? = some c := by
  rw [String.toList_append, List.getLast?_append, h, Option.some_or]

theorem Method.aligned_lines {m : Method} (h : Aligned 0 m.body 0) : Aligned 0 m.lines 0 := by
  have hfirst : ("public function " ++ m.name ++ "(AcceptanceTester $i) \x7b").toList.head? =
      some 'p' := by
    simp
  have hlast : "(AcceptanceTester $i) \x7b".toList.getLast? = some '\x7b' := by decide
  exact .enclosed hfirst (Text.getLast?_append hlast) (by decide) h

theorem Hook.aligned_fileHead : Aligned 0 fileHead 0 := by
  simp only [fileHead, List.map_cons, List.map_nil]
  repeat' first
    | refine .ordinary rfl rfl (by decide) ?_
    | refine .blank ?_
    | exact .nil 0

theorem Hook.aligned_initial (kind : Hook.Kind) : Aligned 0 (Hook.initial kind).render 0 := by
  cases kind with
  | declareDependencies => simpa [initial, bare, render] using aligned_fileHead
  | _ => decide +kernel

theorem Window.aligned_helper : Aligned 0 helper 0 := by
  have hfirst : ("public function " ++ helperName ++ "(AcceptanceTester $i, $timeout = " ++
      toString defaultWindowTimeout ++ ") \x7b").toList.head? = some 'p' := by
    simp
  have hlast : ") \x7b".toList.getLast? = some '\x7b' := by decide
  refine .enclosed hfirst (Text.getLast?_append hlast) (by decide) ?_
  refine .append (e := 0) (.append (e := 0) ?_ ?_) ?_
  · refine .ordinary rfl rfl (by decide) ?_
    decide +kernel
  · decide +kernel
  · have hif : Aligned 0 [⟨0, "if (count($handlesNow) > count($handlesThen)) \x7b"⟩] 1 := by
      decide +kernel
    have hclose : Aligned 1 [⟨0, "\x7d"⟩] 0 := by decide
    refine hif.append (.ordinary rfl rfl (by decide) (hclose.append ?_))
    exact .ordinary rfl rfl (by decide) (.nil 0)

namespace Exporter

variable {e : Exporter}

/-- Members stand one level deep, and the lines between them are blank. -/
theorem memberLines_aligned {members : List (List Line)} (h : ∀ lines ∈ members, Aligned 0 lines 0) :
    Aligned 1 (Line.visible (memberLines members)) 1 := by
  induction members with
  | nil => exact .nil 1
  | cons lines rest ih =>
      have hlines : Aligned 1 (Line.visible (lines.map (Line.raise 1))) 1 :=
        ((h lines (by simp)).raise 1).visible
      have hrest := ih fun lines hm => h lines (by simp [hm])
      cases rest with
      | nil => simpa [memberLines] using hlines
      | cons next rest =>
          have hblank : Aligned 1 (Line.visible [⟨0, ""⟩]) 1 := by decide
          have hall := hlines.append (hblank.append hrest)
          rw [← Line.visible_append, ← Line.visible_append] at hall
          exact hall

theorem hookMember_aligned {kind : Hook.Kind} {lines : List Line} (hooks : e.hooks = .initial)
    (h : e.hookMember kind = some lines) : Aligned 0 lines 0 := by
  unfold hookMember at h
  rw [hooks] at h
  dsimp only at h
  split at h
  · obtain rfl := Option.some.inj h
    exact Hook.aligned_initial kind
  · simp at h

theorem members_aligned {c : Class} (hooks : e.hooks = .initial) (hc : c.IsAligned) :
    ∀ lines ∈ e.members c, Aligned 0 lines 0 := by
  intro lines hm
  simp only [members, List.mem_append, List.mem_filterMap, List.mem_map, Option.mem_toList] at hm
  rcases hm with ((⟨kind, -, hkind⟩ | ⟨m, hm, rfl⟩) | hm) | hkind
  · exact hookMember_aligned hooks hkind
  · exact Method.aligned_lines (hc m hm)
  · split at hm
    · obtain rfl := List.mem_singleton.mp hm
      exact Window.aligned_helper
    · simp at hm
  · exact hookMember_aligned hooks hkind

/-- The visible lines of a class file stand at the level of the blocks that are open. -/
theorem layout_aligned {name : String} {c : Class} (hooks : e.hooks = .initial)
    (hc : c.IsAligned) : Aligned 0 (Line.visible (e.layout name c)) 0 := by
  have hmarker : Aligned 0 [⟨0, ClassFile.marker⟩] 0 := by
    have hlead : Text.startsWith "//" "// Generated by codecept-export " = true := by decide
    have hslashes : Text.startsWith "//" ClassFile.marker = true := by
      unfold ClassFile.marker
      exact Text.startsWith_append hlead _
    refine .of_unmarked (fun l hm => ?_) 0
    obtain rfl := List.mem_singleton.mp hm
    exact Line.mark?_comment hslashes
  have hhead : Aligned 0 (e.hooks.get .declareDependencies).render 0 := by
    rw [hooks]
    exact Hook.aligned_initial .declareDependencies
  have hclass : Aligned 0 [⟨0, ""⟩, ⟨0, "class " ++ Identifier.className name ++ " \x7b"⟩] 1 := by
    have hfirst : ("class " ++ Identifier.className name ++ " \x7b").toList.head? = some 'c' := by
      simp
    have hlast : " \x7b".toList.getLast? = some '\x7b' := by decide
    refine .blank (.cons ?_ (.nil 1))
    have hmark := Line.mark?_of_ends (l := ⟨0, _⟩) hfirst (Text.getLast?_append hlast) (by decide)
    rw [hmark]
    rfl
  have hclose : Aligned 1 [⟨0, "\x7d"⟩] 0 := by decide
  have hbefore := ((hmarker.append hhead).append hclass).visible
  have hall := (hbefore.append (memberLines_aligned (members_aligned hooks hc))).append hclose.visible
  rw [← Line.visible_append, ← Line.visible_append] at hall
  unfold layout
  exact hall

end Exporter

/-! ## Properly nested programs and their class files -/

/-- Block structure survives emission. The fragments of a properly nested program bring the level
back to zero and never below it. Every line but a comment stands at the level of the blocks that are
open, and the blocks that are read back from the braces are those of the program. The same holds of
the visible lines of a class file if its members and the tests that are run from them are such
programs. -/
theorem Exporter.levels_match_blocks (locators : LocatorWriter) (baseUrl : String) :
    (∀ (p : Program) (fs : List Fragment),
      p.steps.mapM (Registry.builtin.emit ⟨baseUrl, locators⟩) = .ok fs →
      ∃ lines f, Level.start.placeAll fs = (lines, Level.start) ∧ Aligned 0 lines 0 ∧
        Forest.read? lines = some f ∧
        f = p.forest (fun s => (s.written ⟨baseUrl, locators⟩).lines) .nil ∧
        f.nest = p.nest (fun s => (s.written ⟨baseUrl, locators⟩).nest) .nil) ∧
    ∀ (name : String) (members pool : List Test) (options : RenderOptions) (c : Class),
      (∀ t, Involved pool members t → ∃ p : Program, p.steps = t.commands) →
      (⟨.builtin, locators, .initial⟩ : Exporter).assemble name members pool options = .ok c →
      Aligned 0 (Line.visible ((⟨.builtin, locators, .initial⟩ : Exporter).layout name c)) 0 := by
  constructor
  · intro p fs h
    exact p.blocks_of_emission h
  · intro name members pool options c ht h
    let e : Exporter := ⟨.builtin, locators, .initial⟩
    have he : e.registry = .builtin := rfl
    have hooks : e.hooks = .initial := rfl
    exact layout_aligned hooks (assemble_aligned he hooks ht h)

/-- A loop around a step that stores a value. -/
theorem Exporter.levels_match_blocks_of_loop :
    ∃ p : Program, p.steps.map (·.command) = ["while", "store", "end"] ∧
      (∃ fs, p.steps.mapM (Registry.builtin.emit ⟨"", .webDriver⟩) = .ok fs ∧
        ∃ lines f, Level.start.placeAll fs = (lines, Level.start) ∧ Aligned 0 lines 0 ∧
          Forest.read? lines = some f ∧
          f = p.forest (fun s => (s.written ⟨"", .webDriver⟩).lines) .nil ∧
          f.nest = p.nest (fun s => (s.written ⟨"", .webDriver⟩).nest) .nil) ∧
      ∃ c, (⟨.builtin, .webDriver, .initial⟩ : Exporter).assemble "Loop"
          [⟨"1", "Loop", p.steps⟩] [] ⟨"", false, false⟩ = .ok c ∧
        Aligned 0 (Line.visible
          ((⟨.builtin, .webDriver, .initial⟩ : Exporter).layout "Loop" c)) 0 := by
  let head := { Step.blank with command := "while", target := "true" }
  let store := { Step.blank with command := "store", target := "x", value := "y" }
  let tail := { Step.blank with command := "end" }
  let p : Program := .loop ⟨head, by decide, rfl⟩ (.plain store (by decide) .done)
    ⟨tail, by decide, rfl⟩ .done
  have hwhile : Action.ofCommand? head.command = some .whileLoop := by decide +kernel
  have hstore : Action.ofCommand? store.command = some .store := by decide +kernel
  have hend : Action.ofCommand? tail.command = some .endBlock := by decide +kernel
  have h₁ : Registry.builtin.emit ⟨"", .webDriver⟩ head = .ok _ :=
    (Registry.emit_builtin_eq_ok_iff (by decide)).mpr ⟨_, _, hwhile, rfl, rfl⟩
  have h₂ : Registry.builtin.emit ⟨"", .webDriver⟩ store = .ok _ :=
    (Registry.emit_builtin_eq_ok_iff (by decide)).mpr ⟨_, _, hstore, rfl, rfl⟩
  have h₃ : Registry.builtin.emit ⟨"", .webDriver⟩ tail = .ok _ :=
    (Registry.emit_builtin_eq_ok_iff (by decide)).mpr ⟨_, _, hend, rfl, rfl⟩
  have hfs := mapM_eq_ok_iff.mpr (.cons h₁ (.cons h₂ (.cons h₃ .nil)))
  let e : Exporter := ⟨.builtin, .webDriver, .initial⟩
  let t : Test := ⟨"1", "Loop", p.steps⟩
  let options : RenderOptions := ⟨"", false, false⟩
  have hbody : (e.body [] options t).runs = [] ∧ (e.body [] options t).fault = none ∧
      (e.body [] options t).opensWindow = false := by
    have hw₁ : e.writeStep [] options head = _ := writeStep_eq (by decide) h₁
    have hw₂ : e.writeStep [] options store = _ := writeStep_eq (by decide) h₂
    have hw₃ : e.writeStep [] options tail = _ := writeStep_eq (by decide) h₃
    have hsteps : t.commands = [head, store, tail] := rfl
    apply body_silent
    · simp [hsteps, hw₁, hw₂, hw₃]
    · simp [hsteps, head, store, tail, Step.blank]
  obtain ⟨hruns, hfault, hwindow⟩ := hbody
  obtain ⟨c, hc⟩ : ∃ c, e.assemble "Loop" [t] [] options = .ok c := by
    have hname : (Identifier.sanitize "Loop").isEmpty = false := by decide
    have hmember : t.name = "Loop" := rfl
    simp [assemble, addMember, Class.addMethod, Class.empty, Class.declares, addHelpers, hmember,
      hruns, hfault, hwindow, hname]
    exact ⟨_, rfl⟩
  have hnested : ∀ u, Involved [] [t] u → ∃ p : Program, p.steps = u.commands := by
    intro u hinvolved
    obtain rfl := List.mem_singleton.mp (mem_append_of_involved hinvolved)
    exact ⟨p, rfl⟩
  obtain ⟨hblocks, hclass⟩ := levels_match_blocks .webDriver ""
  exact ⟨p, rfl, ⟨_, hfs, hblocks p _ hfs⟩, c, hc, hclass _ _ _ _ _ hnested hc⟩

end CestWriter
