import CestWriter.Proofs.Cli.Trace
import CestWriter.Proofs.Cli.Writing
import CestWriter.Proofs.Recording.Token

/-! # What commands ask of the disk

Class files are written into one directory, which is made if it is missing. One more directory is made
where the saved settings are looked for. -/

namespace CestWriter.Cli

/-! ## Kinds of changes -/

/-- Done to a directory: it is made, or one above it, or a class file is written that stands in it. -/
def Change.Inside (dir : String) : Change → Prop
  | made path => path = dir ∨ path ∈ Path.parents dir
  | wrote path _ => ∃ stem : String, IsName stem.toList ∧
    path = Path.join dir (stem ++ "Cest.php") ∧
    Path.names path = Path.names dir ++ [stem ++ "Cest.php"] ∧
    Path.isAbsolute path = Path.isAbsolute dir

/-- A directory is made, or one above it. -/
def Change.Makes (dir : String) : Change → Prop
  | made path => path = dir ∨ path ∈ Path.parents dir
  | wrote _ _ => False

variable {P : Change → Prop} {dir : String}

/-! ## Making directories -/

theorem within_ensureDir {path : String} (h : P (.made path)) :
    Within P (fun _ => True) (ensureDir path) := by
  refine .makeDir h fun r => ?_
  split
  · exact .isDirectory fun _ => .done fun _ _ => trivial
  · exact .done fun _ _ => trivial

theorem within_makeNearest {waiting paths : List String} (hwaiting : ∀ p ∈ waiting, P (.made p))
    (hpaths : ∀ p ∈ paths, P (.made p)) :
    Within P (fun ps => ∀ p ∈ ps, P (.made p)) (makeNearest waiting paths) := by
  induction paths generalizing waiting with
  | nil => exact .pure hwaiting
  | cons path above ih =>
      obtain ⟨hpath, habove⟩ := List.forall_mem_cons.mp hpaths
      refine Program.Within.bind (within_ensureDir hpath) fun r _ => ?_
      split
      · refine .done fun b hb => ?_
        obtain rfl := Except.ok.inj hb
        exact hwaiting
      · exact ih (List.forall_mem_cons.mpr ⟨hpath, hwaiting⟩) habove
      · exact .done fun a ha => nomatch ha

theorem within_forM {paths : List String} (h : ∀ p ∈ paths, P (.made p)) :
    Within P (fun _ => True) (paths.forM ensureDir) := by
  induction paths with
  | nil => exact .pure trivial
  | cons path paths ih =>
      obtain ⟨hpath, hpaths⟩ := List.forall_mem_cons.mp h
      exact (within_ensureDir hpath).bind fun _ _ => ih hpaths

theorem within_ensureDirs (h : ∀ p ∈ dir :: Path.parents dir, P (.made p)) :
    Within P (fun _ => True) (ensureDirs dir) := by
  unfold ensureDirs
  split
  · exact .pure trivial
  · exact (within_makeNearest (by simp) h).bind fun _ hps => within_forM hps

/-! ## Writing files -/

theorem within_writeClass {f : ClassFile} (hdirs : ∀ p ∈ dir :: Path.parents dir, P (.made p))
    (hf : P (.wrote (Path.join dir f.filename) f.body)) :
    Within P (fun _ => True) (writeClass dir f) := by
  have hwrite : (Program.writeFile (Path.join dir f.filename) f.body .done).Within P
      (fun _ => True) := .writeFile hf fun _ => .done trivial
  exact (within_lift (within_ensureDirs hdirs).any).bind fun _ _ =>
    (within_orFail fun _ _ => trivial).bind fun _ _ =>
      (within_lift hwrite).bind fun _ _ => (within_orFail fun _ _ => trivial).bind fun _ _ =>
        .pure trivial

theorem within_print (text : String) : Within P (fun _ => True) (print text) :=
  within_lift (.print (.done trivial))

theorem within_writeClasses {quiet : Bool} {files : List ClassFile}
    (hdirs : ∀ p ∈ dir :: Path.parents dir, P (.made p))
    (hfiles : ∀ f ∈ files, P (.wrote (Path.join dir f.filename) f.body)) :
    Within P (fun _ => True) (writeClasses dir quiet files) := by
  induction files with
  | nil => exact .pure trivial
  | cons f files ih =>
      obtain ⟨hf, hfiles⟩ := List.forall_mem_cons.mp hfiles
      rw [writeClasses]
      refine (within_writeClass hdirs hf).bind fun path _ => ?_
      cases quiet with
      | true => exact ih hfiles
      | false => exact (within_print _).bind fun _ _ => ih hfiles

/-! ## Reading -/

theorem within_readSource (path doing : String) :
    Within P (fun _ => True) (readSource path doing) := by
  unfold readSource
  split
  · exact (within_lift (.readInput fun _ => .done trivial)).bind fun _ _ =>
      within_orFail fun _ _ => trivial
  · exact (within_lift (.readFile fun _ => .done trivial)).bind fun _ _ =>
      within_orFail fun _ _ => trivial

/-- What reading a file leaves of the standard input. All else stays. -/
theorem World.exists_input (w : World) (path : String) :
    ∃ rest, (w.readFile path).2 = { w with input := rest } := by
  unfold readFile
  split
  · exact ⟨_, rfl⟩
  · split <;> exact ⟨_, rfl⟩

/-- Reading takes from the standard input, and leaves all else as it was. -/
theorem eq_of_yields_readSource {path doing text : String} {w mid : World}
    (h : Yields (readSource path doing) w text mid) : ∃ rest, mid = { w with input := rest } := by
  unfold readSource at h
  split at h
  · obtain ⟨r, mid', hread, hrest⟩ := yields_bind.mp h
    obtain ⟨-, rfl⟩ := yields_orFail.mp hrest
    exact ⟨"", (Prod.mk.inj (yields_lift.mp hread)).2.symm⟩
  · obtain ⟨r, mid', hread, hrest⟩ := yields_bind.mp h
    obtain ⟨-, rfl⟩ := yields_orFail.mp hrest
    obtain ⟨rest, hrest⟩ := w.exists_input path
    exact ⟨rest, (Prod.mk.inj (yields_lift.mp hread)).2.symm.trans hrest⟩

/-! ## Looking for the saved settings -/

/-- The settings that a look into a home directory finds. -/
def World.settings (w : World) (home : String) : Settings :=
  ((savedSettings home).run w).1

theorem makesDirs_ensureOwnDir (home : String) : (ensureOwnDir home).MakesDirs :=
  (makesDirs_ensureDirs _).bind fun _ => .done ()

theorem within_savedSettings {home : String}
    (h : ∀ change : Change, change.Makes (Settings.directory home) → P change) :
    (savedSettings home).Within P fun _ => True := by
  have hdirs : Within P (fun _ => True) (ensureDirs (Settings.directory home)) :=
    within_ensureDirs fun path hpath => h (.made path) (List.mem_cons.mp hpath)
  have hown : (ensureOwnDir home).Within P fun _ => True := hdirs.any.bind fun _ _ => .done trivial
  exact hown.bind fun _ _ => .readFile fun _ => .done trivial

/-- A look for the settings loses nothing on the disk, and adds nothing but directories. -/
theorem exists_run_savedSettings (home : String) (w : World) : ∃ disk rest, w.disk.Keeps disk ∧
    ((savedSettings home).run w).2 = { w with disk := disk, input := rest } := by
  obtain ⟨disk, hkeeps, hrun⟩ := (makesDirs_ensureOwnDir home).exists_disk w
  obtain ⟨rest, hrest⟩ := World.exists_input { w with disk := disk } (Settings.path home)
  refine ⟨disk, rest, hkeeps, ?_⟩
  rw [savedSettings, Program.run_bind, hrun, Program.run]
  simp only [Program.run, hrest]

/-! ## The base address -/

/-- The address that relative targets continue: as given, or that of the project, or that of the
settings. -/
def address (given : Option String) (p : Project) (settings : Settings) : String :=
  given.getD (if p.url.isEmpty then settings.defaultBaseUrl.getD "" else p.url)

/-- No address is given and the project has none, so it is looked for in the settings. -/
def NeedsSettings (given : Option String) (p : Project) : Prop :=
  given = none ∧ p.url.isEmpty = true

variable {given : Option String} {p : Project}

theorem within_baseUrl (home : String) (given : Option String) (p : Project) :
    Within (fun change => NeedsSettings given p ∧ change.Makes (Settings.directory home))
      (fun _ => True) (baseUrl home given p) := by
  unfold baseUrl
  split
  · exact .pure trivial
  · split
    · have hlook : (savedSettings home).Within (fun change => NeedsSettings none p ∧
          change.Makes (Settings.directory home)) fun _ => True :=
        within_savedSettings fun change hmakes => ⟨⟨rfl, ‹_›⟩, hmakes⟩
      exact (within_lift hlook).bind fun _ _ => .pure trivial
    · exact .pure trivial

theorem yields_savedSettings (home : String) (w : World) :
    Yields (lift (savedSettings home)) w (w.settings home) ((savedSettings home).run w).2 := by
  rw [yields_lift, World.settings]

theorem yields_baseUrl (home : String) (given : Option String) (p : Project) (w : World) :
    ∃ w', Yields (baseUrl home given p) w (address given p (w.settings home)) w' ∧
      (¬NeedsSettings given p → w' = w) ∧
      ∃ disk rest, w.disk.Keeps disk ∧ w' = { w with disk := disk, input := rest } := by
  have hsame : ∃ disk rest, w.disk.Keeps disk ∧ w = { w with disk := disk, input := rest } :=
    ⟨w.disk, w.input, .refl _, rfl⟩
  unfold baseUrl address
  cases given with
  | some url => exact ⟨w, rfl, fun _ => rfl, hsame⟩
  | none =>
      dsimp only [Option.getD_none]
      split
      · refine ⟨_, yields_bind.mpr ⟨_, _, yields_savedSettings home w, ?_⟩,
          fun h => absurd ⟨rfl, ‹_›⟩ h, exists_run_savedSettings home w⟩
        exact yields_pure.mpr ⟨rfl, rfl⟩
      · exact ⟨w, rfl, fun _ => rfl, hsame⟩

end CestWriter.Cli
