import CestWriter.Proofs.ClassFile.Helpers
import CestWriter.Proofs.ClassFile.MethodNames
import CestWriter.Proofs.Recording.Names
import CestWriter.Proofs.Text.Name

/-! # Generated names as identifiers

Sanitizing leaves no other characters than identifiers have, but it keeps a digit at the beginning. The
names of test methods begin with letters of their own. Those of classes and of helper methods do not. -/

namespace CestWriter

open Php (IsIdentifier)

/-! ## The first character -/

theorem Text.isDigit_toUpper {c : Char} (h : isNameChar c = true) : c.toUpper.isDigit = c.isDigit :=
  of_isNameChar (P := fun c => c.toUpper.isDigit = c.isDigit) (by decide) h

theorem Text.isDigit_toLower {c : Char} (h : isNameChar c = true) : c.toLower.isDigit = c.isDigit :=
  of_isNameChar (P := fun c => c.toLower.isDigit = c.isDigit) (by decide) h

namespace Identifier

/-- A digit is the first character that sanitizing leaves. -/
def BeginsWithDigit (name : String) : Prop :=
  (sanitize name).toList.head?.any Char.isDigit = true

instance (name : String) : Decidable (BeginsWithDigit name) :=
  inferInstanceAs (Decidable (_ = true))

theorem isIdentifier_testMethodName (name : String) : IsIdentifier (testMethodName name).toList := by
  rw [Php.isIdentifier_iff isNameChar_of_mem_testMethodName]
  exact ⟨'t', by simp [testMethodName], by decide⟩

theorem isIdentifier_className_iff {name : String} :
    IsIdentifier (className name).toList ↔ ¬ BeginsWithDigit name := by
  have hs := @isNameChar_of_mem_sanitize name
  rw [Php.isIdentifier_iff isNameChar_of_mem_className, className, String.toList_append,
    toList_capitalize_sanitize, BeginsWithDigit]
  cases hcs : (sanitize name).toList with
  | nil => simp
  | cons c cs =>
      rw [hcs, List.forall_mem_cons] at hs
      simp [Text.isDigit_toUpper hs.1]

theorem isIdentifier_helperName_iff {name : String} (hne : (helperName name).isEmpty = false) :
    IsIdentifier (helperName name).toList ↔ ¬ BeginsWithDigit name := by
  have hs := @isNameChar_of_mem_sanitize name
  have hne : (helperName name).toList ≠ [] := by
    simpa [Bool.eq_false_iff, String.isEmpty_iff, String.toList_eq_nil_iff] using hne
  rw [Php.isIdentifier_iff isNameChar_of_mem_helperName]
  rw [toList_helperName] at hne ⊢
  rw [BeginsWithDigit]
  cases hcs : (sanitize name).toList with
  | nil => simp [hcs] at hne
  | cons c cs =>
      rw [hcs, List.forall_mem_cons] at hs
      simp [Text.isDigit_toLower hs.1]

end Identifier

/-! ## The names of a class -/

namespace Exporter

/-- A name that a class file gives to something: to the class, to one of its methods, or to the method
that is called where a step runs a test. -/
inductive GivenName (e : Exporter) (name : String) (members pool : List Test)
    (options : RenderOptions) (c : Class) : String → Prop
  | ofClass : GivenName e name members pool options c (Identifier.className name)
  | ofMethod {m : Method} (hm : m ∈ c.methods) : GivenName e name members pool options c m.name
  | ofCall {t : Test} {s : Step} {method : String} (ht : Involved pool members t)
    (hs : s ∈ t.commands) (hrun : s.command = "run")
    (hcall : (e.writeStep pool options s).2 = .ok (callFragment s method)) :
    GivenName e name members pool options c method

/-- A call of another method is another fragment. -/
theorem callFragment_inj {s : Step} {method other : String}
    (h : callFragment s method = callFragment s other) : method = other := by
  have hlines (called : String) : (Fragment.statement ("$this->" ++ called ++ "($i);")).lines =
      [⟨0, "$this->" ++ called ++ "($i);"⟩] := by
    have hne : ("$this->" ++ called ++ "($i);").isEmpty = false := by
      rw [Bool.eq_false_iff, ne_eq, String.isEmpty_iff, ← String.toList_eq_nil_iff]
      simp
    rw [Fragment.lines, hne, if_neg (by decide)]
  have hcall : "$this->" ++ method ++ "($i);" = "$this->" ++ other ++ "($i);" := by
    unfold callFragment at h
    cases hopens : s.opensWindow with
    | false =>
        rw [hopens] at h
        exact Fragment.statement.inj h
    | true =>
        rw [hopens, if_pos rfl, if_pos rfl, Window.wrap, Window.wrap, hlines, hlines] at h
        have hblock := congrArg Block.lines (Fragment.block.inj h)
        simpa using hblock
  rw [← String.toList_inj] at hcall ⊢
  simpa using hcall

variable {e : Exporter} {name : String} {members pool : List Test} {options : RenderOptions}

/-- A test that is run has a helper method with a name. -/
theorem Exportable.helperNameAt_ne_empty (he : e.registry = .builtin)
    (h : e.Exportable name members pool options) {i : Nat} (hi : Reached pool members i) :
    (helperNameAt pool i).isEmpty = false := by
  obtain ⟨t, ht, hruns⟩ := reached_iff_involved.mp hi
  obtain ⟨s, hs, hrun, hfind⟩ := Test.mem_runs.mp hruns
  obtain ⟨f, hf⟩ := fault_eq_none_iff_written.mp (h.written t ht) s hs
  obtain ⟨j, hj, hne, -⟩ := (writeStep_run_iff he hrun).mp hf
  obtain rfl := Option.some.inj (hfind.symm.trans hj)
  exact hne

theorem Exportable.isIdentifier_helperNameAt_iff (he : e.registry = .builtin)
    (h : e.Exportable name members pool options) {i : Nat} (hi : Reached pool members i) :
    IsIdentifier (helperNameAt pool i).toList ↔ ¬ Identifier.BeginsWithDigit (testAt pool i).name :=
  Identifier.isIdentifier_helperName_iff (h.helperNameAt_ne_empty he hi)

/-- The name of the class, those of the test methods, and those of the helper methods for the reached
tests are all the names that are given. -/
theorem givenName_assembled_iff (he : e.registry = .builtin) {n : String} :
    e.GivenName name members pool options (e.assembled members pool options) n ↔
      n = Identifier.className name ∨ (∃ t ∈ members, n = Identifier.testMethodName t.name) ∨
        ∃ i, Reached pool members i ∧ n = helperNameAt pool i := by
  constructor
  · intro hn
    cases hn with
    | ofClass => exact .inl rfl
    | @ofMethod m hm =>
        rw [methods_assembled, List.mem_append, List.mem_map, List.mem_map] at hm
        rcases hm with ⟨t, ht, rfl⟩ | ⟨i, hi, rfl⟩
        · exact .inr (.inl ⟨t, ht, rfl⟩)
        · exact .inr (.inr ⟨i, mem_runOrder.mp hi, rfl⟩)
    | @ofCall t s method ht hs hrun hcall =>
        obtain ⟨i, hfind, -, hf⟩ := (writeStep_run_iff he hrun).mp hcall
        refine .inr (.inr ⟨i, reached_iff_involved.mpr ⟨t, ht, ?_⟩, callFragment_inj hf⟩)
        exact Test.mem_runs.mpr ⟨s, hs, hrun, hfind⟩
  · rintro (rfl | ⟨t, ht, rfl⟩ | ⟨i, hi, rfl⟩)
    · exact .ofClass
    · have hm : e.testMethod pool options t ∈ (e.assembled members pool options).methods := by
        rw [methods_assembled]
        exact List.mem_append_left _ (List.mem_map_of_mem ht)
      exact .ofMethod (m := e.testMethod pool options t) hm
    · have hm : e.helperMethod pool options i ∈ (e.assembled members pool options).methods := by
        rw [methods_assembled]
        exact List.mem_append_right _ (List.mem_map_of_mem (mem_runOrder.mpr hi))
      exact .ofMethod (m := e.helperMethod pool options i) hm

theorem Exportable.identifiers_iff (he : e.registry = .builtin)
    (h : e.Exportable name members pool options) :
    (∀ n, e.GivenName name members pool options (e.assembled members pool options) n →
        IsIdentifier n.toList) ↔
      ¬ Identifier.BeginsWithDigit name ∧
        ∀ i, Reached pool members i → ¬ Identifier.BeginsWithDigit (testAt pool i).name := by
  simp only [givenName_assembled_iff he]
  constructor
  · intro hall
    refine ⟨Identifier.isIdentifier_className_iff.mp (hall _ (.inl rfl)), fun i hi => ?_⟩
    exact (h.isIdentifier_helperNameAt_iff he hi).mp (hall _ (.inr (.inr ⟨i, hi, rfl⟩)))
  · rintro ⟨hclass, hhelpers⟩ n (rfl | ⟨t, -, rfl⟩ | ⟨i, hi, rfl⟩)
    · exact Identifier.isIdentifier_className_iff.mpr hclass
    · exact Identifier.isIdentifier_testMethodName t.name
    · exact (h.isIdentifier_helperNameAt_iff he hi).mpr (hhelpers i hi)

/-! ## Names that are refused -/

theorem exportClass_unnamed (h : (Identifier.sanitize name).isEmpty = true) :
    e.exportClass name members pool options = .error (.invalidName name) := by
  rw [exportClass, assemble_eq, if_pos h, Except.map]

/-- A member without a name is refused, for a name if all steps are written. -/
theorem exportClass_unnamed_member {t : Test} (ht : t ∈ members)
    (h : (Identifier.sanitize t.name).isEmpty = true) :
    ∃ fault, e.exportClass name members pool options = .error fault ∧
      ((∀ t, Involved pool members t → (e.body pool options t).fault = none) →
        ∃ n, fault = .invalidName n) := by
  cases hresult : e.assemble name members pool options with
  | ok c =>
      have hnamed := (assemble_eq_ok_iff.mp hresult).1.membersNamed t ht
      exact absurd (h.symm.trans hnamed) (by decide)
  | error fault =>
      exact ⟨fault, by rw [exportClass, hresult, Except.map], fun hw => assemble_fails hw hresult⟩

theorem exportClass_unnamed_run (he : e.registry = .builtin) {i : Nat}
    (hi : Reached pool members i) (h : (helperNameAt pool i).isEmpty = true) :
    ∃ fault, e.exportClass name members pool options = .error fault := by
  refine exists_error_of_not_exportable fun hexportable => ?_
  have hne := hexportable.helperNameAt_ne_empty he hi
  exact absurd (h.symm.trans hne) (by decide)

/-- In a class file that comes out, the file is named after the class, and test methods have identifiers
for names. So have the class, the helper methods and the calls of these just where no digit is first in
what sanitizing leaves of the name of the class, or of a test that is run. Names of which nothing is
left are refused. -/
theorem given_names_identifiers_iff (locators : LocatorWriter) (hooks : Hooks) (name : String)
    (members pool : List Test) (options : RenderOptions) :
    let e : Exporter := ⟨.builtin, locators, hooks⟩
    (∀ file, e.exportClass name members pool options = .ok file →
      ∃ c, e.assemble name members pool options = .ok c ∧
        file = ⟨Identifier.className name ++ ".php", Line.textOf (e.layout name c)⟩ ∧
        ⟨0, "class " ++ Identifier.className name ++ " \x7b"⟩ ∈ e.layout name c ∧
        (∀ t ∈ members, e.testMethod pool options t ∈ c.methods ∧
          IsIdentifier (e.testMethod pool options t).name.toList) ∧
        ((∀ n, e.GivenName name members pool options c n → IsIdentifier n.toList) ↔
          ¬ Identifier.BeginsWithDigit name ∧
            ∀ i, Reached pool members i → ¬ Identifier.BeginsWithDigit (testAt pool i).name)) ∧
    ((Identifier.sanitize name).isEmpty = true →
      e.exportClass name members pool options = .error (.invalidName name)) ∧
    (∀ t ∈ members, (Identifier.sanitize t.name).isEmpty = true →
      ∃ fault, e.exportClass name members pool options = .error fault ∧
        ((∀ t, Involved pool members t → (e.body pool options t).fault = none) →
          ∃ n, fault = .invalidName n)) ∧
    (∀ i, Reached pool members i → (helperNameAt pool i).isEmpty = true →
      ∃ fault, e.exportClass name members pool options = .error fault) := by
  intro e
  have he : e.registry = .builtin := rfl
  refine ⟨fun file hfile => ?_, exportClass_unnamed, fun t => exportClass_unnamed_member,
    fun i => exportClass_unnamed_run he⟩
  obtain ⟨h, rfl⟩ := exportClass_eq_ok_iff.mp hfile
  refine ⟨_, assemble_eq_ok_iff.mpr ⟨h, rfl⟩, rfl, ?_, fun t ht => ⟨?_, ?_⟩, h.identifiers_iff he⟩
  · simp [layout]
  · rw [methods_assembled]
    exact List.mem_append_left _ (List.mem_map_of_mem ht)
  · exact Identifier.isIdentifier_testMethodName t.name

/-- A name with a digit first is accepted, for a class and for a test that another one runs. -/
theorem given_names_identifiers_iff_of_digit :
    let main : Test := ⟨"1", "main", [{ Step.blank with command := "run", target := "2fa" }]⟩
    let code : Test := ⟨"2", "2fa", []⟩
    let options : RenderOptions := ⟨"", false, false⟩
    let e : Exporter := ⟨.builtin, .webDriver, .initial⟩
    (∃ file c, e.exportClass "2fa" [code] [main, code] options = .ok file ∧
      file.filename = "2faCest.php" ∧ e.assemble "2fa" [code] [main, code] options = .ok c ∧
      ¬ ∀ n, e.GivenName "2fa" [code] [main, code] options c n → IsIdentifier n.toList) ∧
    (∃ c, e.assemble "main" [main] [main, code] options = .ok c ∧
      ¬ ∀ n, e.GivenName "main" [main] [main, code] options c n → IsIdentifier n.toList) ∧
    e.exportClass "?" [main] [main, code] options = .error (.invalidName "?") := by
  intro main code options e
  have he : e.registry = .builtin := rfl
  have hmain : ∀ s ∈ main.commands, ∃ f, (e.writeStep [main, code] options s).2 = .ok f :=
    List.forall_mem_singleton.mpr
      ⟨_, (writeStep_run_iff he rfl).mpr ⟨1, by decide, by decide, rfl⟩⟩
  have hcode : ∀ s ∈ code.commands, ∃ f, (e.writeStep [main, code] options s).2 = .ok f := by
    simp [code]
  have hpool : ∀ t ∈ [main, code], ∀ s ∈ t.commands,
      ∃ f, (e.writeStep [main, code] options s).2 = .ok f :=
    List.forall_mem_cons.mpr ⟨hmain, List.forall_mem_singleton.mpr hcode⟩
  have hclass : e.Exportable "2fa" [code] [main, code] options :=
    .of_pool (by decide) (by decide) (List.forall_mem_append.mpr
      ⟨List.forall_mem_singleton.mpr hcode, hpool⟩) (by decide) (by decide) (by decide) (by decide)
  have hhelper : e.Exportable "main" [main] [main, code] options :=
    .of_pool (by decide) (by decide) (List.forall_mem_append.mpr
      ⟨List.forall_mem_singleton.mpr hmain, hpool⟩) (by decide) (by decide) (by decide) (by decide)
  obtain ⟨hnamed, -⟩ := given_names_identifiers_iff .webDriver .initial "2fa" [code]
    [main, code] options
  obtain ⟨hcalled, -⟩ := given_names_identifiers_iff .webDriver .initial "main" [main]
    [main, code] options
  obtain ⟨-, hrefused, -⟩ := given_names_identifiers_iff .webDriver .initial "?" [main]
    [main, code] options
  refine ⟨?_, ?_, hrefused (by decide)⟩
  · have hfile := exportClass_eq_ok_iff.mpr ⟨hclass, rfl⟩
    obtain ⟨c, hc, -, -, -, hiff⟩ := hnamed _ hfile
    exact ⟨_, c, hfile, by decide, hc, fun hall => (hiff.mp hall).1 (by decide)⟩
  · have hreached : Reached [main, code] [main] 1 := .root (by decide)
    obtain ⟨c, hc, -, -, -, hiff⟩ := hcalled _ (exportClass_eq_ok_iff.mpr ⟨hhelper, rfl⟩)
    exact ⟨c, hc, fun hall => (hiff.mp hall).2 1 hreached (by decide)⟩

end Exporter

end CestWriter
