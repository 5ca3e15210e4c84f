import CestWriter.Proofs.Cli.Writing
import CestWriter.Proofs.Exchange.Routes
import CestWriter.Proofs.Recording.Names

/-! # Exporting all tests

Every test has a class file of its own, named after the test. Nothing keeps two of these names apart:
where they are equal, the file that is written last is the one that stays. -/

namespace CestWriter

namespace Identifier

/-- Names that are the same but for characters that identifiers cannot hold, and for the case of the
first letter. -/
def Agree (name other : String) : Prop :=
  (sanitize name).toList.head?.map Char.toUpper = (sanitize other).toList.head?.map Char.toUpper ∧
    (sanitize name).toList.tail = (sanitize other).toList.tail

instance (name other : String) : Decidable (Agree name other) :=
  inferInstanceAs (Decidable (_ ∧ _))

theorem fileName_eq_iff {name other : String} : fileName name = fileName other ↔ Agree name other := by
  rw [fileName, fileName, className, className, ← String.toList_inj]
  simp only [String.toList_append, List.append_left_inj, toList_capitalize_sanitize, Agree]
  constructor
  · intro h
    cases hn : (sanitize name).toList <;> cases ho : (sanitize other).toList <;> simp_all
  · rintro ⟨hhead, htail⟩
    rw [hhead, htail]

example : fileName "log in" = fileName "Login" :=
  fileName_eq_iff.mpr (by decide)

/-- Every name of a class file can be the name of an entry in a directory. -/
theorem isEntryName_fileName (name : String) : Path.IsEntryName (fileName name) := by
  have hchars : ∀ c ∈ (fileName name).toList, Text.isNameChar c = true ∨ c ∈ ".php".toList := by
    intro c hc
    rw [fileName, String.toList_append, List.mem_append] at hc
    exact hc.imp_left (isNameChar_of_mem_className c)
  have hlong (short : String) (hshort : short.length < 8) : fileName name ≠ short := by
    rintro rfl
    have hlengths : "Cest".length = 4 ∧ ".php".length = 4 := by decide
    rw [fileName, className, String.length_append, String.length_append] at hshort
    omega
  refine ⟨hlong "" (by decide), fun h => ?_, fun h => ?_, hlong "." (by decide), hlong ".." (by decide)⟩
  · exact absurd (hchars _ h) (by decide)
  · exact absurd (hchars _ h) (by decide)

end Identifier

/-- A line more is another text. -/
theorem Line.textOf_insert_ne (before : List Line) (l : Line) (after : List Line) :
    textOf (before ++ l :: after) ≠ textOf (before ++ after) := by
  intro h
  have hlengths := congrArg String.length h
  have hline : 0 < l.text.length := by
    have hfeed : "\n".length = 1 := by decide
    rw [text]
    split
    · omega
    · rw [String.length_append]
      omega
  rw [textOf, textOf] at hlengths
  simp only [String.length_join, List.map_append, List.map_cons, List.sum_append, List.sum_cons]
    at hlengths
  omega

namespace Exporter

open Cli (Yields)

variable {e : Exporter} {pool : List Test} {options : RenderOptions}

theorem filename_of_exportTest {t : Test} {f : ClassFile}
    (h : (e.exportTest t pool options).map ClassFile.withoutMarker = .ok f) :
    f.filename = Identifier.fileName t.name := by
  obtain ⟨c, hc, rfl⟩ := map_eq_ok_iff.mp h
  obtain ⟨_, -, rfl⟩ := map_eq_ok_iff.mp hc
  rfl

/-- Every test is exported, whatever the names of the others are. The file that is left for it is the
one that was written last of those with its name, and so tests are lost where names agree and classes
do not. -/
theorem all_tests_kept_iff (e : Exporter) (p : Project) (options : RenderOptions) :
    ((∃ files, e.convert p options .allTests = .ok files) ↔
      ∀ t ∈ p.tests, ∃ f, e.exportTest t p.tests options = .ok f) ∧
    ∀ files, e.convert p options .allTests = .ok files →
      List.Forall₂ (fun t f => f.filename = Identifier.fileName t.name ∧
        (e.exportTest t p.tests options).map ClassFile.withoutMarker = .ok f) p.tests files ∧
      ((files.map (·.filename)).Nodup ↔
        p.tests.Pairwise fun t u => ¬Identifier.Agree t.name u.name) ∧
      ∀ dir quiet w,
        (w.disk.Shows dir (.directory []) → (∀ f ∈ files, w.disk.HasRoom dir f.filename) →
          ∃ w', Yields (Cli.writeClasses dir quiet files) w () w') ∧
        ∀ w', Yields (Cli.writeClasses dir quiet files) w () w' →
          (∀ before f after, files = before ++ f :: after → (∀ g ∈ after, g.filename ≠ f.filename) →
            w'.disk.Took (Path.join dir f.filename) f.body) ∧
          ((∀ f ∈ files, w'.disk.Shows (Path.join dir f.filename) (.file f.body)) ↔
            (∀ f ∈ files, ∀ g ∈ files, f.filename = g.filename → f.body = g.body) ∧
              ∀ f ∈ files, ¬w'.disk.Device (Path.join dir f.filename)) := by
  have hexported : ∀ files, e.convert p options .allTests = .ok files ↔
      List.Forall₂ (fun t f => (e.exportTest t p.tests options).map ClassFile.withoutMarker = .ok f)
        p.tests files := fun files => mapM_eq_ok_iff
  refine ⟨?_, fun files hfiles => ?_⟩
  · refine exists_mapM_eq_ok_iff.trans (forall₂_congr fun t _ => ?_)
    simp only [map_eq_ok_iff, exists_comm (α := ClassFile), exists_and_left, exists_eq', and_true]
  · have hall := (hexported files).mp hfiles
    have hnamed := hall.imp fun t f h => And.intro (filename_of_exportTest h) h
    have hnames : files.map (·.filename) = p.tests.map fun t => Identifier.fileName t.name := by
      rw [← List.forall₂_eq_eq_eq, List.forall₂_map_left_iff, List.forall₂_map_right_iff]
      exact (hnamed.imp fun _ _ h => h.1).flip
    have hentry : ∀ f ∈ files, Path.IsEntryName f.filename := by
      intro f hf
      have hmem : f.filename ∈ p.tests.map fun t => Identifier.fileName t.name :=
        hnames ▸ List.mem_map_of_mem hf
      obtain ⟨t, -, ht⟩ := List.mem_map.mp hmem
      exact ht ▸ Identifier.isEntryName_fileName t.name
    refine ⟨hnamed, ?_, fun dir quiet w =>
      ⟨Cli.exists_yields_writeClasses hentry, fun w' hw' => ⟨?_, ?_⟩⟩⟩
    · rw [hnames, List.Nodup, List.pairwise_map]
      simp only [ne_eq, Identifier.fileName_eq_iff]
    · rintro before f after rfl hlast
      exact Cli.took_last hentry hlast hw'
    · exact Cli.all_stand_iff hentry hw'

/-- Two tests that differ in name by the case of one letter, and one of them has a step. The writing
succeeds, the class of the second stands under the name of both, and that of the first is lost. -/
theorem all_tests_kept_iff_of_login :
    let p : Project := { Project.blank with
      tests := [⟨"1", "login", [{ Step.blank with command := "//a" }]⟩, ⟨"2", "Login", []⟩] }
    let w : Cli.World := ⟨⟨.directory [("out", .directory [])], []⟩, "", fun _ _ => .absent, ""⟩
    ∃ first second, Exporter.default.convert p ⟨"", false, false⟩ .allTests = .ok [first, second] ∧
      first.filename = "LoginCest.php" ∧ second.filename = "LoginCest.php" ∧
      w.disk.Shows "out" (.directory []) ∧ (∀ f ∈ [first, second], w.disk.HasRoom "out" f.filename) ∧
      ∃ w', Yields (Cli.writeClasses "out" true [first, second]) w () w' ∧
        w'.disk.Took "out/LoginCest.php" second.body ∧
        ¬∀ f ∈ [first, second], w'.disk.Shows (Path.join "out" f.filename) (.file f.body) := by
  intro p w
  obtain ⟨f, hf⟩ : ∃ f, Exporter.default.exportTest
      ⟨"1", "login", [{ Step.blank with command := "//a" }]⟩ p.tests ⟨"", false, false⟩ = .ok f :=
    ⟨_, rfl⟩
  obtain ⟨g, hg⟩ : ∃ g, Exporter.default.exportTest
      ⟨"2", "Login", []⟩ p.tests ⟨"", false, false⟩ = .ok g := ⟨_, rfl⟩
  have hconvert : Exporter.default.convert p ⟨"", false, false⟩ .allTests =
      .ok [f.withoutMarker, g.withoutMarker] := by
    rw [convert, exportAll]
    simp only [p, List.mapM_cons, hf, hg]
    rfl
  have hnames : f.withoutMarker.filename = "LoginCest.php" ∧
      g.withoutMarker.filename = "LoginCest.php" := by
    cases hf
    cases hg
    decide
  -- the step is a line that the other file lacks
  have hlines : ∃ before l after, f.body = Line.textOf (before ++ l :: after) ∧
      g.body = Line.textOf (before ++ after) := by
    cases hf
    cases hg
    refine ⟨_, ⟨2, "//a | "⟩, _, congrArg Line.textOf ?_,
      congrArg Line.textOf (List.take_append_drop 28 _).symm⟩
    decide +kernel
  have hbodies : f.withoutMarker.body ≠ g.withoutMarker.body := by
    intro h
    obtain ⟨before, l, after, hfirst, hsecond⟩ := hlines
    refine Line.textOf_insert_ne before l after ?_
    rw [← hfirst, ← hsecond, ClassFile.body_eq hf, ClassFile.body_eq hg, h]
  have hdir : w.disk.Shows "out" (.directory []) := ⟨_, rfl, rfl⟩
  have hroom : w.disk.HasRoom "out" "LoginCest.php" := by
    refine ⟨by decide, by decide, ?_⟩
    rintro ⟨place, hplace, -⟩
    have hfree : (w.disk.find (Path.join "out" "LoginCest.php")).isOk = false := by decide +kernel
    rw [hplace] at hfree
    cases hfree
  have hrooms : ∀ file ∈ [f.withoutMarker, g.withoutMarker],
      w.disk.HasRoom "out" file.filename := by
    simp only [List.forall_mem_cons, hnames]
    exact ⟨hroom, hroom, List.forall_mem_nil _⟩
  obtain ⟨-, hall⟩ := all_tests_kept_iff Exporter.default p ⟨"", false, false⟩
  obtain ⟨-, -, hwriting⟩ := hall _ hconvert
  obtain ⟨hsucceeds, hdone⟩ := hwriting "out" true w
  obtain ⟨w', hw'⟩ := hsucceeds hdir hrooms
  obtain ⟨hlast, hstand⟩ := hdone w' hw'
  refine ⟨_, _, hconvert, hnames.1, hnames.2, hdir, hrooms, w', hw', ?_, fun h => ?_⟩
  · have htook := hlast [f.withoutMarker] g.withoutMarker [] rfl (List.forall_mem_nil _)
    rwa [hnames.2] at htook
  · exact hbodies ((hstand.mp h).1 _ (by simp) _ (by simp) (hnames.1.trans hnames.2.symm))

end Exporter

end CestWriter
