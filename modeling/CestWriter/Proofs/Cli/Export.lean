import CestWriter.Proofs.ClassFile.Identifiers
import CestWriter.Proofs.Cli.AllTests
import CestWriter.Proofs.Cli.Changes

/-! # Exports write all of their files or none

All selected classes are made before the first file is written. One that cannot be made leaves the disk
as it was. Otherwise the files stand in one directory, under names that are made of name characters. -/

namespace CestWriter

/-! ## The classes of a selection -/

namespace Exporter

variable {e : Exporter} {p : Project} {options : RenderOptions} {selection : Selection}
  {fault : ExportError}

/-- The selected classes in order, each as its conversion comes out. A key that nothing has stands
for a class that cannot be made. -/
def selected (e : Exporter) (p : Project) (options : RenderOptions) :
    Selection → List (Except ExportError ClassFile)
  | .test key =>
    match p.findTest? key with
    | some t => [e.exportTest t p.tests options]
    | none => [.error (.missingTest key)]
  | .suite key =>
    match p.findSuite? key with
    | some s => [e.exportSuite s p.tests options]
    | none => [.error (.missingSuite key)]
  | .allTests => p.tests.map fun t => e.exportTest t p.tests options

theorem convert_eq (e : Exporter) (p : Project) (options : RenderOptions) (selection : Selection) :
    e.convert p options selection =
      (e.selected p options selection).mapM fun x => x.map ClassFile.withoutMarker := by
  cases selection with
  | test key =>
      cases h : p.findTest? key with
      | none =>
          simp only [convert, selected, h]
          rfl
      | some t =>
          simp only [convert, selected, h]
          rfl
  | suite key =>
      cases h : p.findSuite? key with
      | none =>
          simp only [convert, selected, h]
          rfl
      | some s =>
          simp only [convert, selected, h]
          cases e.exportSuite s p.tests options <;> rfl
  | allTests =>
      rw [convert, selected, exportAll, List.mapM_map]
      rfl

/-- A conversion fails with the fault of the first selected class that cannot be made. -/
theorem convert_eq_error_iff : e.convert p options selection = .error fault ↔
    ∃ before after, e.selected p options selection = before ++ .error fault :: after ∧
      ∀ x ∈ before, ∃ f, x = .ok f := by
  rw [convert_eq, mapM_eq_error_iff]
  simp only [map_eq_error_iff, map_eq_ok_iff]
  constructor
  · rintro ⟨before, _, after, hsplit, hbefore, rfl⟩
    refine ⟨before, after, hsplit, fun x hx => ?_⟩
    obtain ⟨_, f, hf, -⟩ := hbefore x hx
    exact ⟨f, hf⟩
  · rintro ⟨before, after, hsplit, hbefore⟩
    refine ⟨before, _, after, hsplit, fun x hx => ?_, rfl⟩
    obtain ⟨f, hf⟩ := hbefore x hx
    exact ⟨_, f, hf, rfl⟩

theorem exists_convert_eq_error (h : .error fault ∈ e.selected p options selection) :
    ∃ first, e.convert p options selection = .error first := by
  cases hconvert : e.convert p options selection with
  | error first => exact ⟨first, rfl⟩
  | ok files =>
      rw [convert_eq] at hconvert
      obtain ⟨f, hf⟩ := exists_mapM_eq_ok_iff.mp ⟨files, hconvert⟩ _ h
      cases hf

/-! ## Names of files -/

/-- A class file that comes out is named by name characters, and there is at least one of them. -/
theorem exists_stem_of_exportClass {name : String} {members pool : List Test} {f : ClassFile}
    (h : e.exportClass name members pool options = .ok f) :
    ∃ stem : String, IsName stem.toList ∧ f.filename = stem ++ "Cest.php" ∧
      Path.IsEntryName f.filename := by
  have hfile : f.filename = Identifier.fileName name := by
    obtain ⟨_, -, rfl⟩ := map_eq_ok_iff.mp h
    rfl
  refine ⟨Text.capitalize (Identifier.sanitize name), ⟨?_, ?_⟩, ?_, ?_⟩
  · intro hnil
    have hempty : (Identifier.sanitize name).isEmpty = true := by
      rw [String.isEmpty_iff, ← String.toList_eq_nil_iff]
      rw [Identifier.toList_capitalize_sanitize] at hnil
      cases hcs : (Identifier.sanitize name).toList with
      | nil => rfl
      | cons c cs => simp [hcs] at hnil
    rw [exportClass_unnamed hempty] at h
    cases h
  · intro c hc
    have hclass : c ∈ (Identifier.className name).toList := by
      rw [Identifier.className, String.toList_append]
      exact List.mem_append_left _ hc
    exact Identifier.isNameChar_of_mem_className c hclass
  · rw [hfile, Identifier.fileName, Identifier.className, String.append_assoc]
    rfl
  · exact hfile ▸ Identifier.isEntryName_fileName name

theorem exists_stem_of_selected {f : ClassFile} (h : .ok f ∈ e.selected p options selection) :
    ∃ stem : String, IsName stem.toList ∧ f.filename = stem ++ "Cest.php" ∧
      Path.IsEntryName f.filename := by
  unfold selected at h
  split at h
  · split at h
    · exact exists_stem_of_exportClass (List.mem_singleton.mp h).symm
    · cases List.mem_singleton.mp h
  · split at h
    · obtain ⟨_, -, hf⟩ := bind_eq_ok.mp (List.mem_singleton.mp h).symm
      exact exists_stem_of_exportClass hf
    · cases List.mem_singleton.mp h
  · obtain ⟨t, -, hf⟩ := List.mem_map.mp h
    exact exists_stem_of_exportClass hf

theorem exists_stem_of_convert {files : List ClassFile}
    (h : e.convert p options selection = .ok files) : ∀ f ∈ files, ∃ stem : String,
      IsName stem.toList ∧ f.filename = stem ++ "Cest.php" ∧ Path.IsEntryName f.filename := by
  intro f hf
  rw [convert_eq] at h
  obtain ⟨x, hx, hmade⟩ := exists_of_mem_mapM h hf
  obtain ⟨g, rfl, rfl⟩ := map_eq_ok_iff.mp hmade
  exact exists_stem_of_selected (f := g) hx

end Exporter

namespace Cli

/-! ## An export from the beginning -/

section

variable {c : ExportCommand} {w mid : World} {text : String} {p : Project}

/-- What an export makes of the options of its command line. -/
def ExportCommand.options (c : ExportCommand) (p : Project) (settings : Settings) : RenderOptions :=
  ⟨address c.url p settings, c.originTracing, c.descriptionComments⟩

/-- Once its project is read, an export goes on from there. -/
theorem run_exportFiles (home : String) (quiet : Bool) (htext : Yields (readSource c.project "") w text mid)
    (hp : Project.ofText text = .ok p) :
    (exportFiles home quiet c).run.run w = (exportProject home quiet c p).run.run mid ∧
      (exportFiles home quiet c).run.trace w = (exportProject home quiet c p).run.trace mid := by
  have hproject : Yields (orFail Failure.ofExport (Project.ofText text)) mid p mid :=
    yields_orFail.mpr ⟨hp, rfl⟩
  have hread : (readSource c.project "").run.trace w = [] :=
    List.eq_nil_iff_forall_not_mem.mpr ((within_readSource (P := fun _ => False) _ _).trace w)
  constructor
  · rw [exportFiles, htext.run_bind, hproject.run_bind]
  · rw [exportFiles, htext.trace_bind, hproject.trace_bind, hread, hp]
    rfl

/-- The first fault of the conversion ends the export before anything is written. -/
theorem exportProject_fails (home : String) (quiet : Bool) (w : World) {fault : ExportError}
    (hfault : Exporter.default.convert p (c.options p (w.settings home)) c.selection = .error fault) :
    ∃ w', Fails (exportProject home quiet c p) w (.ofExport fault) w' ∧
      (¬NeedsSettings c.url p → w' = w) ∧
      (∃ disk rest, w.disk.Keeps disk ∧ w' = { w with disk := disk, input := rest }) ∧
      ∀ change ∈ (exportProject home quiet c p).run.trace w,
        NeedsSettings c.url p ∧ change.Makes (Settings.directory home) := by
  obtain ⟨w', hurl, hsame, hkeeps⟩ := yields_baseUrl home c.url p w
  have hconvert : Fails (orFail Failure.ofExport (Exporter.default.convert p
      (c.options p (w.settings home)) c.selection)) w' (.ofExport fault) w' := by
    rw [hfault]
    rfl
  refine ⟨w', hurl.bind_fails (hconvert.bind _), hsame, hkeeps, fun change hchange => ?_⟩
  have htrace : (exportProject home quiet c p).run.trace w = (baseUrl home c.url p).run.trace w := by
    rw [exportProject, hurl.trace_bind]
    refine (congrArg _ (hconvert.trace_bind _)).trans ?_
    rw [hfault]
    exact List.append_nil _
  exact (within_baseUrl home c.url p).trace w change (htrace ▸ hchange)

/-- An export asks for changes in its own directory only, apart from the look for the settings. -/
theorem within_exportProject (home : String) (quiet : Bool) (c : ExportCommand) (p : Project) :
    Within (fun change => change.Inside c.outDir ∨
      NeedsSettings c.url p ∧ change.Makes (Settings.directory home)) (fun _ => True)
      (exportProject home quiet c p) := by
  refine ((within_baseUrl home c.url p).mono fun _ h => .inr h).bind fun url _ => ?_
  refine (within_orFail fun files hfiles => Exporter.exists_stem_of_convert hfiles).bind
    fun files hnames => ?_
  split
  · exact within_print _
  · refine within_writeClasses (fun path hpath => .inl (List.mem_cons.mp hpath)) fun f hf => .inl ?_
    obtain ⟨stem, hstem, hname, hentry⟩ := hnames f hf
    rw [hname] at hentry ⊢
    exact ⟨stem, hstem, rfl, Path.names_join hentry, Path.isAbsolute_join hentry⟩

end

/-- If a selected class cannot be made, the export reports the fault of the first such class, and no
file is made or changed. Nor is a directory, but for that of the settings, which is made, with those
missing above it, if the settings are looked for. In any case an export does nothing else outside of
its directory. -/
theorem export_all_or_nothing {env : Environment} {words : List String} {i : Invocation}
    {c : ExportCommand} {w mid : World} {text : String} {p : Project}
    (hwords : Invocation.ofWords env words = .ok i) (hcommand : i.command = .exportFiles c)
    (htext : Yields (readSource c.project "") w text mid) (hp : Project.ofText text = .ok p) :
    let classes := Exporter.default.selected p (c.options p (mid.settings env.home)) c.selection
    let ownDir := Settings.directory env.home
    (∀ fault, .error fault ∈ classes → ∃ before first after w',
      classes = before ++ .error first :: after ∧ (∀ x ∈ before, ∃ f, x = .ok f) ∧
      runWords env words w = .ok (⟨(Failure.ofExport first).exitCode, w.output,
        "Error: " ++ (Failure.ofExport first).message ++ "\n"⟩, w') ∧
      (∀ change ∈ (perform env.home i).run.trace w,
        NeedsSettings c.url p ∧ change.Makes ownDir) ∧
      w.disk.Keeps w'.disk ∧ (¬NeedsSettings c.url p → w'.disk = w.disk)) ∧
    ∀ change ∈ (perform env.home i).run.trace w,
      change.Inside c.outDir ∨ NeedsSettings c.url p ∧ change.Makes ownDir := by
  intro classes ownDir
  have hperform : perform env.home i = exportFiles env.home i.quiet c := by rw [perform, hcommand]
  obtain ⟨hrun, htrace⟩ := run_exportFiles env.home i.quiet htext hp
  rw [hperform, htrace]
  refine ⟨fun fault hfault => ?_, (within_exportProject env.home i.quiet c p).trace mid⟩
  obtain ⟨first, hfirst⟩ := Exporter.exists_convert_eq_error hfault
  obtain ⟨before, after, hsplit, hbefore⟩ := Exporter.convert_eq_error_iff.mp hfirst
  obtain ⟨w', hfails, hsame, ⟨disk, rest', hkeeps, hw'⟩, hmakes⟩ :=
    exportProject_fails env.home i.quiet mid hfirst
  obtain ⟨rest, hmid⟩ := eq_of_yields_readSource htext
  have houtput : w'.output = w.output := by rw [hw', hmid]
  have hdisk : mid.disk = w.disk := by rw [hmid]
  refine ⟨before, first, after, w', hsplit, hbefore, ?_, hmakes, ?_, fun h => ?_⟩
  · rw [runWords, hwords]
    dsimp only
    rw [hperform, hrun, hfails, Shown.ofResult, houtput]
  · rwa [hw', ← hdisk]
  · rw [hsame h, hdisk]

/-- Failed exports that leave something behind: the directory of the settings, which are looked for
before a test is found to be missing, and the first of two files, when the second cannot be written. -/
theorem failed_exports_leave_traces :
    let missing : World := ⟨⟨.directory [("home", .directory [])], []⟩, "\x7b\x7d", fun _ _ => .absent, ""⟩
    let blocked : World := ⟨⟨.directory [("BCest.php", .directory [])], []⟩,
      "\x7b\"url\":\"u\",\"tests\":[\x7b\"name\":\"a\"\x7d,\x7b\"name\":\"b\"\x7d]\x7d", fun _ _ => .absent, ""⟩
    let env : Environment := ⟨"/home", none, none⟩
    let own := "/home/.codecept-export"
    (runWords env ["export", "-", "-t", "a"] missing).toOption.map (fun (shown, after) =>
      (shown, missing.disk.isDirectory own, after.disk.isDirectory own)) =
        some (⟨1, "", "Error: Export failed: Test 'a' not found\n"⟩, false, true) ∧
    (runWords env ["-q", "export", "-"] blocked).toOption.map (fun (shown, after) =>
      (shown, (blocked.disk.find "ACest.php").isOk, (after.disk.find "ACest.php").isOk)) =
        some (⟨4, "", "Error: I/O error: Failed to write ./BCest.php: Is a directory (os error 21)\n"⟩,
          false, true) := by
  decide +kernel

/-- A test without a name after one that converts: neither has a file, and the name is complained of. -/
theorem export_all_or_nothing_of_unnamed :
    let w : World := {
      disk := ⟨.directory [("home", .directory [])], []⟩
      input := "\x7b\"tests\":[\x7b\"name\":\"first\"\x7d,\x7b\"name\":\"!!\"\x7d]\x7d"
      server := fun _ _ => .absent
      output := "" }
    let env : Environment := ⟨"/home", none, none⟩
    let c : ExportCommand := ⟨"-", .allTests, none, "out", false, false, false⟩
    let i : Invocation := ⟨"default", false, .exportFiles c⟩
    let p : Project := { Project.blank with tests := [⟨"", "first", []⟩, ⟨"", "!!", []⟩] }
    Invocation.ofWords env ["export", "-", "-o", "out"] = .ok i ∧
      Yields (readSource c.project "") w w.input { w with input := "" } ∧
      Project.ofText w.input = .ok p ∧
      ∃ w', runWords env ["export", "-", "-o", "out"] w = .ok (⟨1, "",
        "Error: Export failed: '!!' cannot be turned into a class or method name\n"⟩, w') ∧
      w.disk.Keeps w'.disk ∧
      ∀ change ∈ (perform "/home" i).run.trace w, change.Makes "/home/.codecept-export" := by
  intro w env c i p
  have hwords : Invocation.ofWords env ["export", "-", "-o", "out"] = .ok i := by rfl
  have htext : Yields (readSource c.project "") w w.input { w with input := "" } := by
    have hdash : Path.isDash c.project = true := by decide +kernel
    rw [readSource, if_pos hdash]
    rfl
  have hp : Project.ofText w.input = .ok p := by
    have hread : Project.shape.ofText? w.input = some p := by decide +kernel
    rw [Project.ofText, hread]
  generalize hoptions : c.options p (World.settings { w with input := "" } env.home) = options
  obtain ⟨hfault, -⟩ := export_all_or_nothing hwords rfl htext hp
  rw [hoptions] at hfault
  obtain ⟨file, hfile⟩ : ∃ file, Exporter.default.exportTest ⟨"", "first", []⟩ p.tests options = .ok file :=
    ⟨_, rfl⟩
  have hclasses : Exporter.default.selected p options c.selection =
      [.ok file, .error (.invalidName "!!")] := by
    have hunnamed : Exporter.default.exportTest ⟨"", "!!", []⟩ p.tests options =
        .error (.invalidName "!!") := Exporter.exportClass_unnamed (by decide)
    show [Exporter.default.exportTest ⟨"", "first", []⟩ p.tests _,
      Exporter.default.exportTest ⟨"", "!!", []⟩ p.tests _] = _
    rw [hfile, hunnamed]
  rw [hclasses] at hfault
  obtain ⟨before, first, after, w', hsplit, -, hshown, hmakes, hkeeps, -⟩ :=
    hfault (.invalidName "!!") (by simp)
  have hmem : Except.error first ∈ [.ok file, .error (.invalidName "!!")] := by
    rw [hsplit]
    exact List.mem_append_right _ List.mem_cons_self
  obtain rfl : first = .invalidName "!!" := by simpa using hmem
  have hown : Settings.directory env.home = "/home/.codecept-export" := by decide +kernel
  rw [hown] at hmakes
  exact ⟨hwords, htext, hp, w', hshown, hkeeps, fun change hchange => (hmakes change hchange).2⟩

end Cli

end CestWriter
