import CestWriter.Proofs.Cli.Run

/-! # Class files on the disk

Class files are written one after another into one directory. Each takes the place of an earlier one
of its name, and leaves all others alone. -/

namespace CestWriter.Cli

open CestWriter.Path (IsEntryName)

variable {α β : Type} {w w' : World} {dir : String} {f : ClassFile} {files : List ClassFile}
  {quiet : Bool}

/-! ## Making directories -/

/-- Does nothing but make directories and look for them. -/
inductive Program.MakesDirs : Program α → Prop
  | done (result : α) : MakesDirs (.done result)
  | makeDir {path : String} {next : Except Refusal Unit → Program α} (h : ∀ r, MakesDirs (next r)) :
    MakesDirs (.makeDir path next)
  | isDirectory {path : String} {next : Bool → Program α} (h : ∀ b, MakesDirs (next b)) :
    MakesDirs (.isDirectory path next)

namespace Program.MakesDirs

theorem bind {p : Program α} {f : α → Program β} (h : p.MakesDirs) (hf : ∀ a, (f a).MakesDirs) :
    (p.bind f).MakesDirs := by
  induction h with
  | done result => exact hf result
  | makeDir _ ih => exact .makeDir ih
  | isDirectory _ ih => exact .isDirectory ih

/-- Nothing but the disk changes, and on the disk nothing is lost. -/
theorem exists_disk {p : Program α} (h : p.MakesDirs) (w : World) :
    ∃ disk, w.disk.Keeps disk ∧ (p.run w).2 = { w with disk := disk } := by
  induction h generalizing w with
  | done result => exact ⟨w.disk, .refl _, rfl⟩
  | @makeDir path next _ ih =>
      rw [Program.run]
      cases hmade : w.disk.makeDir path with
      | error e => exact ih (.error e) w
      | ok made =>
          obtain ⟨disk, hkeeps, hrun⟩ := ih (.ok ()) { w with disk := made }
          exact ⟨disk, (Disk.makeDir_keeps hmade).trans hkeeps, hrun⟩
  | isDirectory _ ih => exact ih _ w

end Program.MakesDirs

theorem makesDirs_ensureDir (path : String) : (ensureDir path).run.MakesDirs := by
  refine .makeDir fun r => ?_
  split
  · exact .isDirectory fun _ => .done _
  · exact .done _

theorem makesDirs_makeNearest (waiting paths : List String) :
    (makeNearest waiting paths).run.MakesDirs := by
  induction paths generalizing waiting with
  | nil => exact .done _
  | cons path above ih =>
      refine (makesDirs_ensureDir path).bind fun r => ?_
      split
      · exact .done _
      · exact ih _
      · exact .done _

theorem makesDirs_forM (paths : List String) : (paths.forM ensureDir).run.MakesDirs := by
  induction paths with
  | nil => exact .done _
  | cons path paths ih =>
      refine (makesDirs_ensureDir path).bind fun r => ?_
      cases r with
      | error e => exact .done _
      | ok _ => exact ih

theorem makesDirs_ensureDirs (path : String) : (ensureDirs path).run.MakesDirs := by
  unfold ensureDirs
  split
  · exact .done _
  · refine (makesDirs_makeNearest [] _).bind fun r => ?_
    cases r with
    | error e => exact .done _
    | ok paths => exact makesDirs_forM paths

/-- A directory that is there stays as it is. -/
theorem yields_ensureDirs (h : w.disk.Shows dir (.directory [])) : Yields (ensureDirs dir) w () w := by
  have hthere : (ensureDir dir).run.run w = (.ok (), w) := by
    show Program.run (.makeDir dir _) w = _
    rw [Program.run, Disk.makeDir_of_shows h]
    show Program.run (.isDirectory dir _) w = _
    rw [Program.run, Disk.isDirectory_iff.mpr h]
    rfl
  unfold ensureDirs
  split
  · rfl
  · refine yields_bind.mpr ⟨[], w, ?_, rfl⟩
    show Program.run (Program.bind _ _) w = _
    rw [Program.run_bind, hthere]
    rfl

/-! ## Writing files -/

theorem run_writeFile_eq_ok {path text : String} :
    (Program.writeFile path text .done).run w = (.ok (), w') ↔
      ∃ disk, w.disk.write path text = .ok disk ∧ w' = { w with disk := disk } := by
  rw [Program.run]
  cases w.disk.write path text with
  | error e => simp [World.settle, Program.run]
  | ok disk => simp [World.settle, Program.run, eq_comm]

theorem yields_writeClass_iff {path : String} : Yields (writeClass dir f) w path w' ↔
    path = Path.join dir f.filename ∧ ∃ mid, Yields (ensureDirs dir) w () mid ∧
      ∃ disk, mid.disk.write path f.body = .ok disk ∧ w' = { mid with disk := disk } := by
  simp only [writeClass, yields_bind, yields_lift, yields_orFail, yields_pure]
  constructor
  · rintro ⟨_, _, hdirs, _, mid, ⟨rfl, rfl⟩, _, _, hwrite, _, _, ⟨rfl, rfl⟩, rfl, rfl⟩
    exact ⟨rfl, mid, hdirs, run_writeFile_eq_ok.mp hwrite⟩
  · rintro ⟨rfl, mid, hdirs, hwrite⟩
    exact ⟨_, mid, hdirs, (), mid, ⟨rfl, rfl⟩, _, w', run_writeFile_eq_ok.mpr hwrite, (), w',
      ⟨rfl, rfl⟩, rfl, rfl⟩

/-- The world after a file was announced, unless `quiet`. -/
def World.announced (w : World) (quiet : Bool) (path : String) : World :=
  if quiet then w else { w with output := w.output ++ (path ++ "\n") }

@[simp] theorem World.disk_announced (w : World) (quiet : Bool) (path : String) :
    (w.announced quiet path).disk = w.disk := by
  cases quiet <;> rfl

theorem yields_writeClasses_cons : Yields (writeClasses dir quiet (f :: files)) w () w' ↔
    ∃ path mid, Yields (writeClass dir f) w path mid ∧
      Yields (writeClasses dir quiet files) (mid.announced quiet path) () w' := by
  have hprint (mid next : World) (text : String) :
      Yields (print text) mid () next ↔ next = { mid with output := mid.output ++ text } := by
    rw [print, yields_lift]
    simp [Program.run, eq_comm]
  simp only [writeClasses, yields_bind]
  refine exists_congr fun path => exists_congr fun mid => and_congr_right fun _ => ?_
  cases quiet with
  | true => simp [World.announced]
  | false => simp [World.announced, yields_bind, hprint]

theorem wrote_of_yields {path : String} (hname : IsEntryName f.filename)
    (h : Yields (writeClass dir f) w path w') :
    ∃ d, w.disk.Keeps d ∧ d.Wrote dir f.filename f.body w'.disk := by
  obtain ⟨rfl, mid, hdirs, disk, hwrite, rfl⟩ := yields_writeClass_iff.mp h
  obtain ⟨made, hkeeps, hmade⟩ := (makesDirs_ensureDirs dir).exists_disk w
  rw [show (ensureDirs dir).run.run w = _ from hdirs] at hmade
  obtain rfl : mid = { w with disk := made } := hmade
  exact ⟨made, hkeeps, Disk.wrote_of_write hname hwrite⟩

theorem yields_writeClasses_cons_disk (hname : IsEntryName f.filename)
    (h : Yields (writeClasses dir quiet (f :: files)) w () w') :
    ∃ d next, w.disk.Keeps d ∧ d.Wrote dir f.filename f.body next.disk ∧
      Yields (writeClasses dir quiet files) next () w' := by
  obtain ⟨path, mid, hfirst, hrest⟩ := yields_writeClasses_cons.mp h
  obtain ⟨d, hkeeps, hwrote⟩ := wrote_of_yields hname hfirst
  exact ⟨d, _, hkeeps, by rwa [World.disk_announced], hrest⟩

/-- What stands at a path stays if no file of its name is written. -/
theorem took_of_yields {name text : String} (hname : IsEntryName name)
    (hnames : ∀ f ∈ files, IsEntryName f.filename) (hother : ∀ f ∈ files, f.filename ≠ name)
    (ht : w.disk.Took (Path.join dir name) text) (h : Yields (writeClasses dir quiet files) w () w') :
    w'.disk.Took (Path.join dir name) text := by
  induction files generalizing w with
  | nil =>
      obtain ⟨-, rfl⟩ := yields_pure.mp h
      exact ht
  | cons f files ih =>
      obtain ⟨hf, hfiles⟩ := List.forall_mem_cons.mp hnames
      obtain ⟨hne, hnes⟩ := List.forall_mem_cons.mp hother
      obtain ⟨d, next, hkeeps, hwrote, hrest⟩ := yields_writeClasses_cons_disk hf h
      exact ih hfiles hnes (hwrote.took_other hname hne.symm (hkeeps.took ht)) hrest

/-- Of the files of one name the last stands in the directory. -/
theorem took_last {before after : List ClassFile}
    (hnames : ∀ g ∈ before ++ f :: after, IsEntryName g.filename)
    (hlast : ∀ g ∈ after, g.filename ≠ f.filename)
    (h : Yields (writeClasses dir quiet (before ++ f :: after)) w () w') :
    w'.disk.Took (Path.join dir f.filename) f.body := by
  induction before generalizing w with
  | nil =>
      obtain ⟨hf, hafter⟩ := List.forall_mem_cons.mp hnames
      obtain ⟨d, next, -, hwrote, hrest⟩ := yields_writeClasses_cons_disk hf h
      exact took_of_yields hf hafter hlast (hwrote.took hf) hrest
  | cons g before ih =>
      obtain ⟨hg, hnames⟩ := List.forall_mem_cons.mp hnames
      obtain ⟨d, next, -, -, hrest⟩ := yields_writeClasses_cons_disk hg h
      exact ih hnames hrest

theorem exists_last (hf : f ∈ files) : ∃ before g after, files = before ++ g :: after ∧
    g.filename = f.filename ∧ ∀ h ∈ after, h.filename ≠ g.filename := by
  induction files generalizing f with
  | nil => cases hf
  | cons first files ih =>
      by_cases hlater : ∃ h ∈ files, h.filename = f.filename
      · obtain ⟨h, hh, he⟩ := hlater
        obtain ⟨before, g, after, rfl, hg, hlast⟩ := ih hh
        exact ⟨first :: before, g, after, rfl, hg.trans he, hlast⟩
      · rcases List.mem_cons.mp hf with rfl | hf
        · exact ⟨[], f, files, rfl, rfl, fun h hh he => hlater ⟨h, hh, he⟩⟩
        · exact absurd ⟨f, hf, rfl⟩ hlater

/-- Every file stands in the directory if files of one name have one text, unless the path of one
leads to a device. -/
theorem all_stand_iff (hnames : ∀ f ∈ files, IsEntryName f.filename)
    (h : Yields (writeClasses dir quiet files) w () w') :
    (∀ f ∈ files, w'.disk.Shows (Path.join dir f.filename) (.file f.body)) ↔
      (∀ f ∈ files, ∀ g ∈ files, f.filename = g.filename → f.body = g.body) ∧
        ∀ f ∈ files, ¬w'.disk.Device (Path.join dir f.filename) := by
  constructor
  · intro hall
    refine ⟨fun f hf g hg he => ?_, fun f hf ⟨k, hk, hdevice⟩ => ?_⟩
    · exact Node.file.inj ((hall f hf).unique (he ▸ hall g hg))
    · cases hdevice.unique (hall f hf)
      cases hk
  · rintro ⟨hsame, hfree⟩ f hf
    obtain ⟨before, g, after, rfl, hname, hlast⟩ := exists_last hf
    have hg : g ∈ before ++ g :: after := List.mem_append_right _ List.mem_cons_self
    rcases took_last hnames hlast h with hfile | hdevice
    · rw [← hname, ← hsame g hg f hf hname]
      exact hfile
    · exact absurd hdevice (hfree g hg)

/-- Files are written into a directory that has room for them. -/
theorem exists_yields_writeClasses (hnames : ∀ f ∈ files, IsEntryName f.filename)
    (hdir : w.disk.Shows dir (.directory [])) (hroom : ∀ f ∈ files, w.disk.HasRoom dir f.filename) :
    ∃ w', Yields (writeClasses dir quiet files) w () w' := by
  induction files generalizing w with
  | nil => exact ⟨w, rfl⟩
  | cons f files ih =>
      obtain ⟨hf, hfiles⟩ := List.forall_mem_cons.mp hnames
      obtain ⟨hfits, hothers⟩ := List.forall_mem_cons.mp hroom
      obtain ⟨disk, hwrite⟩ := Disk.exists_write hf hdir hfits f.body
      have hwrote := Disk.wrote_of_write hf hwrite
      have hfirst : Yields (writeClass dir f) w (Path.join dir f.filename) { w with disk := disk } :=
        yields_writeClass_iff.mpr ⟨rfl, w, yields_ensureDirs hdir, disk, hwrite, rfl⟩
      let next : World := { w with disk := disk }.announced quiet (Path.join dir f.filename)
      have hdisk : next.disk = disk := World.disk_announced ..
      obtain ⟨w', hrest⟩ : ∃ w', Yields (writeClasses dir quiet files) next () w' :=
        ih hfiles (hdisk ▸ hwrote.shows_directory hdir) fun g hg =>
          hdisk ▸ hwrote.hasRoom hf (hfiles g hg) (hothers g hg)
      exact ⟨w', yields_writeClasses_cons.mpr ⟨_, _, hfirst, hrest⟩⟩

end CestWriter.Cli
