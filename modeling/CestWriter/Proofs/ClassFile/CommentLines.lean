import CestWriter.Proofs.ClassFile.Assembly
import CestWriter.Proofs.Number.Numeral
import CestWriter.Proofs.Php.Comment
import Mathlib.Data.List.Flatten

/-! # When generated comments stay comments

The head of a traced method, the comments above the steps and the comments that disabled steps become
repeat recorded words. All of them but the head are brought onto one line, and none of them keeps the
tag out that ends the code. -/

namespace CestWriter

open Php

/-! ## The texts of comments -/

theorem Php.isComment_oneLine {s : String} (h : Text.startsWith "//" s = true) :
    IsComment (Text.oneLine s) ↔ ¬ ClosesCode s.toList := by
  rw [isComment_iff, and_iff_right (Text.startsWith_oneLine (by decide) h), EndsComment,
    or_iff_right (not_endsLine_oneLine s), closesCode_oneLine]

namespace Step

/-- The words that say what a step does. -/
def words (s : Step) : List String :=
  [s.command, s.target, s.value]

/-- None of the recorded words that comments repeat for a step closes the code. -/
structure StaysComment (options : RenderOptions) (s : Step) : Prop where
  words : options.originTracing = true ∨ s.isDisabled = true →
    ∀ text ∈ s.words, ¬ ClosesCode text.toList
  description : options.descriptionComments = true → ¬ ClosesCode s.comment.toList

end Step

/-- A test name stands in one line and does not close the code, where it is written. -/
structure Test.StaysComment (options : RenderOptions) (t : Test) : Prop where
  name : options.originTracing = true → ¬ EndsComment t.name.toList
  steps : ∀ s ∈ t.commands, s.StaysComment options

/-- Blanks and bars around the words do not complete a tag. -/
theorem Php.closesCode_bars (xs ys : List Char) :
    ClosesCode (xs ++ ' ' :: '|' :: ' ' :: ys) ↔ ClosesCode xs ∨ ClosesCode ys := by
  rw [closesCode_append_cons (by decide), closesCode_cons (by decide), closesCode_cons (by decide)]

theorem Php.not_closesCode_digits (n : Nat) : ¬ ClosesCode (Nat.toDigits 10 n) := by
  apply not_closesCode
  intro hm
  have hdigit := (Number.isNatural_toDigits n).isDigit '?' hm
  contradiction

theorem isComment_testName {name : String} :
    IsComment ("// Test name: " ++ name) ↔ ¬ EndsComment name.toList := by
  have hlead : Text.startsWith "//" ("// Test name: " ++ name) = true :=
    Text.startsWith_append (by decide) name
  rw [isComment_iff, and_iff_right hlead]
  simp [EndsComment, EndsLine, closesCode_cons]

theorem isComment_traced {n : Nat} {s : Step} :
    IsComment (Text.oneLine ("// " ++ toString n ++ " | " ++ s.command ++ " | " ++ s.target ++
      " | " ++ s.value)) ↔ ∀ text ∈ s.words, ¬ ClosesCode text.toList := by
  have hlead : Text.startsWith "//" ("// " ++ toString n ++ " | " ++ s.command ++ " | " ++
      s.target ++ " | " ++ s.value) = true := by
    simp only [String.append_assoc]
    exact Text.startsWith_append (by decide) _
  have htext : ("// " ++ toString n ++ " | " ++ s.command ++ " | " ++ s.target ++ " | " ++
      s.value).toList = '/' :: '/' :: ' ' :: ((toString n).toList ++ ' ' :: '|' :: ' ' ::
        (s.command.toList ++ ' ' :: '|' :: ' ' :: (s.target.toList ++ ' ' :: '|' :: ' ' ::
          s.value.toList))) := by
    simp
  rw [isComment_oneLine hlead, htext, closesCode_cons (by decide), closesCode_cons (by decide),
    closesCode_cons (by decide), closesCode_bars, closesCode_bars, closesCode_bars]
  simp [Step.words, not_closesCode_digits]

theorem isComment_described {s : Step} :
    IsComment (Text.oneLine ("// " ++ s.comment)) ↔ ¬ ClosesCode s.comment.toList := by
  rw [isComment_oneLine (Text.startsWith_append (by decide) _)]
  simp [closesCode_cons]

theorem isComment_disabledComment {s : Step} (hs : s.isDisabled = true) :
    IsComment (Registry.disabledComment s) ↔ ∀ text ∈ s.words, ¬ ClosesCode text.toList := by
  have hlead (rest : String) : Text.startsWith "//" (s.command ++ rest) = true :=
    Text.startsWith_append hs rest
  unfold Registry.disabledComment
  rw [isComment_oneLine (by simpa only [String.append_assoc] using hlead _)]
  by_cases hvalue : s.value = ""
  · have htext : (s.command ++ " | " ++ s.target ++ (if s.value.isEmpty then "" else " | " ++
        s.value)).toList = s.command.toList ++ ' ' :: '|' :: ' ' :: s.target.toList := by
      simp [hvalue]
    rw [htext, closesCode_bars]
    simp [Step.words, hvalue, not_closesCode_nil]
  · have htext : (s.command ++ " | " ++ s.target ++ (if s.value.isEmpty then "" else " | " ++
        s.value)).toList = s.command.toList ++ ' ' :: '|' :: ' ' :: (s.target.toList ++
          ' ' :: '|' :: ' ' :: s.value.toList) := by
      simp [hvalue]
    rw [htext, closesCode_bars, closesCode_bars]
    simp [Step.words]

namespace Exporter

variable {e : Exporter} {pool : List Test} {options : RenderOptions}

/-! ## The comments of a body -/

theorem isComment_traceHead {t : Test} : (∀ l ∈ traceHead options t, IsComment l.statement) ↔
    (options.originTracing = true → ¬ EndsComment t.name.toList) := by
  have hcolumns : IsComment "// Step # | name | target | value" :=
    ⟨_, rfl, by decide⟩
  unfold traceHead
  cases options.originTracing with
  | false => simp
  | true => simp [isComment_testName, hcolumns]

theorem isComment_comments {level n : Nat} {s : Step} :
    (∀ l ∈ comments options level n s, IsComment l.statement) ↔
      (options.originTracing = true → ∀ text ∈ s.words, ¬ ClosesCode text.toList) ∧
      (options.descriptionComments = true → ¬ ClosesCode s.comment.toList) := by
  unfold comments
  rw [List.forall_mem_append]
  refine and_congr ?_ ?_
  · cases options.originTracing with
    | false => simp
    | true => simp only [if_true, List.forall_mem_singleton, isComment_traced, forall_const]
  · cases options.descriptionComments with
    | false => simp
    | true =>
        by_cases hcomment : s.comment = ""
        · simp [hcomment, not_closesCode_nil]
        · simp [hcomment, isComment_described]

/-- The comment lines of a body: its head, and for each step the comments above it and the one that
it becomes if it is disabled. -/
def commentLines (options : RenderOptions) (t : Test) (placed : List Placed) : List Line :=
  traceHead options t ++ (placed.zipIdx 1).flatMap fun (p, n) =>
    comments options p.base n p.step ++ if p.step.isDisabled then p.lines else []

theorem Placement.lines_of_disabled {level : Level} {steps : List Step} {placed : List Placed}
    (h : e.Placement pool options level steps placed) {p : Placed} (hp : p ∈ placed)
    (hs : p.step.isDisabled = true) : ∃ n, p.lines = [⟨n, Registry.disabledComment p.step⟩] := by
  have hf := h.written p hp
  rw [writeStep_disabled hs] at hf
  refine ⟨p.level.depth, ?_⟩
  rw [Placed.lines, ← Except.ok.inj hf, place_disabled hs]

theorem Placement.staysComment_iff {t : Test} {placed : List Placed}
    (h : e.Placement pool options .start t.commands placed) :
    (∀ l ∈ commentLines options t placed, IsComment l.statement) ↔ t.StaysComment options := by
  have hstep : ∀ p ∈ placed, ∀ n, (∀ l ∈ comments options p.base n p.step ++
      (if p.step.isDisabled then p.lines else []), IsComment l.statement) ↔
        p.step.StaysComment options := by
    intro p hp n
    rw [List.forall_mem_append, isComment_comments]
    by_cases hs : p.step.isDisabled = true
    · obtain ⟨m, hm⟩ := h.lines_of_disabled hp hs
      rw [if_pos hs, hm, List.forall_mem_singleton, isComment_disabledComment hs]
      constructor
      · rintro ⟨⟨-, hdescription⟩, hwords⟩
        exact ⟨fun _ => hwords, hdescription⟩
      · intro hstays
        exact ⟨⟨fun _ => hstays.words (.inr hs), hstays.description⟩, hstays.words (.inr hs)⟩
    · rw [if_neg hs]
      constructor
      · rintro ⟨⟨hwords, hdescription⟩, -⟩
        exact ⟨fun htrace => hwords (htrace.resolve_right hs), hdescription⟩
      · intro hstays
        exact ⟨⟨fun htrace => hstays.words (.inl htrace), hstays.description⟩, by simp⟩
  rw [commentLines, List.forall_mem_append, isComment_traceHead]
  constructor
  · rintro ⟨hname, hsteps⟩
    refine ⟨hname, fun s hs => ?_⟩
    rw [← h.steps_eq] at hs
    obtain ⟨p, hp, rfl⟩ := List.mem_map.mp hs
    obtain ⟨⟨q, n⟩, hq, rfl⟩ : ∃ q ∈ placed.zipIdx 1, q.1 = p := by
      rw [← List.mem_map, List.zipIdx_map_fst]
      exact hp
    exact (hstep q hp n).mp fun l hl => hsteps l (List.mem_flatMap.mpr ⟨_, hq, hl⟩)
  · intro hstays
    refine ⟨hstays.name, fun l hl => ?_⟩
    obtain ⟨⟨p, n⟩, hp, hl⟩ := List.mem_flatMap.mp hl
    have hp : p ∈ placed := List.fst_mem_of_mem_zipIdx hp
    have hs : p.step ∈ t.commands := h.steps_eq ▸ List.mem_map_of_mem hp
    exact (hstep p hp n).mpr (hstays.steps p.step hs) l hl

theorem not_endsLine_comments {level n : Nat} {s : Step} :
    ∀ l ∈ comments options level n s, ¬ EndsLine l.statement.toList := by
  intro l hl
  unfold comments at hl
  rcases List.mem_append.mp hl with hl | hl
  · split at hl
    · obtain rfl := List.mem_singleton.mp hl
      exact not_endsLine_oneLine _
    · simp at hl
  · split at hl
    · obtain rfl := List.mem_singleton.mp hl
      exact not_endsLine_oneLine _
    · simp at hl

/-- Only the name of a test can bring a line end into a comment. -/
theorem Placement.endsLine_iff {t : Test} {placed : List Placed}
    (h : e.Placement pool options .start t.commands placed) :
    (∃ l ∈ commentLines options t placed, EndsLine l.statement.toList) ↔
      options.originTracing = true ∧ EndsLine t.name.toList := by
  have hhead : (∃ l ∈ traceHead options t, EndsLine l.statement.toList) ↔
      options.originTracing = true ∧ EndsLine t.name.toList := by
    unfold traceHead
    cases options.originTracing with
    | false => simp
    | true => simp [EndsLine]
  rw [← hhead]
  constructor
  · rintro ⟨l, hl, hends⟩
    rcases List.mem_append.mp hl with hl | hl
    · exact ⟨l, hl, hends⟩
    · obtain ⟨⟨p, n⟩, hp, hl⟩ := List.mem_flatMap.mp hl
      rcases List.mem_append.mp hl with hl | hl
      · exact (not_endsLine_comments l hl hends).elim
      · split at hl
        · rename_i hs
          obtain ⟨m, hm⟩ := h.lines_of_disabled (List.fst_mem_of_mem_zipIdx hp) hs
          obtain rfl := List.mem_singleton.mp (hm ▸ hl)
          exact (not_endsLine_oneLine _ hends).elim
        · simp at hl
  · rintro ⟨l, hl, hends⟩
    exact ⟨l, List.mem_append_left _ hl, hends⟩

theorem Placement.commentLines_sublist {t : Test} {placed : List Placed}
    (h : e.Placement pool options .start t.commands placed) :
    (commentLines options t placed).Sublist (e.body pool options t).lines := by
  have hsteps : ((placed.zipIdx 1).flatMap fun (p, n) =>
      comments options p.base n p.step ++ if p.step.isDisabled then p.lines else []).Sublist
        (placedLines options 1 placed) := by
    refine List.Sublist.flatMap_right _ fun (p, n) _ => .append_left ?_ _
    split
    · exact .refl _
    · exact List.nil_sublist _
  rw [h.body_eq, bodyLines, commentLines, List.append_assoc, List.append_assoc]
  refine .append_left ?_ _
  exact (hsteps.trans (List.sublist_append_left ..)).trans (List.sublist_append_right ..)

/-! ## The comments of a class file -/

theorem sublist_memberLines {members : List (List Line)} {lines : List Line} (h : lines ∈ members) :
    (lines.map (Line.raise 1)).Sublist (memberLines members) := by
  unfold memberLines
  induction members with
  | nil => simp at h
  | cons first rest ih =>
      rcases List.mem_cons.mp h with rfl | h
      · cases rest with
        | nil => simp
        | cons next rest => simp
      · cases rest with
        | nil => simp at h
        | cons next rest =>
            have hrest := ih h
            simp only [List.map_cons, List.intersperse_cons_cons, List.flatten_cons] at hrest ⊢
            exact (hrest.trans (List.sublist_append_right ..)).trans (List.sublist_append_right ..)

/-- The body of every test that a class is made of stands in its file. -/
theorem body_sublist_layout (name : String) {members : List Test} {t : Test}
    (ht : Involved pool members t) :
    ((e.body pool options t).lines.map (Line.raise 2)).Sublist
      (e.layout name (e.assembled members pool options)) := by
  obtain ⟨source, hsource, rfl⟩ := involved_iff_mem_sources.mp ht
  let m : Method := ⟨source.1, (e.body pool options source.2).lines⟩
  have hmethod : m.lines ∈ e.members (e.assembled members pool options) := by
    have hm : m ∈ (e.assembled members pool options).methods :=
      List.mem_map.mpr ⟨source, hsource, rfl⟩
    simp only [Exporter.members, List.mem_append, List.mem_map]
    exact .inl (.inl (.inr ⟨m, hm, rfl⟩))
  have hbody : (m.body.map (Line.raise 1)).Sublist m.lines :=
    (List.sublist_append_left ..).cons _
  have hraise : m.body.map (Line.raise 2) = (m.body.map (Line.raise 1)).map (Line.raise 1) := by
    rw [List.map_map]
    rfl
  rw [hraise]
  have hmember := (hbody.map (Line.raise 1)).trans (sublist_memberLines hmethod)
  exact (hmember.trans (List.sublist_append_right ..)).trans (List.sublist_append_left ..)

/-- Generated comments stay comments just where the recorded words let them. Each comment line of a
class file is one comment to its end if and only if the test names that head traced methods end
neither a line nor the code, and neither words nor descriptions that are repeated close the code. No
comment but such a head can be broken by a line end. -/
theorem comments_stay_comments_iff (e : Exporter) (name : String) (members pool : List Test)
    (options : RenderOptions) {c : Class} (h : e.assemble name members pool options = .ok c)
    {t : Test} (ht : Involved pool members t) :
    ∃ placed, e.Placement pool options .start t.commands placed ∧
      ((commentLines options t placed).map (Line.raise 2)).Sublist (e.layout name c) ∧
      ((∀ l ∈ commentLines options t placed, IsComment l.statement) ↔ t.StaysComment options) ∧
      ((∃ l ∈ commentLines options t placed, EndsLine l.statement.toList) ↔
        options.originTracing = true ∧ EndsLine t.name.toList) := by
  obtain ⟨hexportable, rfl⟩ := assemble_eq_ok_iff.mp h
  obtain ⟨placed, hplaced⟩ := fault_eq_none_iff.mp (hexportable.written t ht)
  have hlines := (hplaced.commentLines_sublist.map (Line.raise 2)).trans
    (body_sublist_layout name ht)
  exact ⟨placed, hplaced, hlines, hplaced.staysComment_iff, hplaced.endsLine_iff⟩

/-- A test whose name has two lines, with a disabled step that holds the closing tag. -/
theorem comments_stay_comments_iff_of_tag :
    let off : Step := { Step.blank with command := "//click", target := "?>" }
    let t : Test := ⟨"1", "two\nlines", [off]⟩
    let options : RenderOptions := ⟨"", true, false⟩
    let e : Exporter := ⟨.builtin, .webDriver, .initial⟩
    ∃ c placed, e.assemble "main" [t] [] options = .ok c ∧ Involved [] [t] t ∧
      e.Placement [] options .start t.commands placed ∧
      ((commentLines options t placed).map (Line.raise 2)).Sublist (e.layout "main" c) ∧
      (¬ ∀ l ∈ commentLines options t placed, IsComment l.statement) ∧
      ∃ l ∈ commentLines options t placed, EndsLine l.statement.toList := by
  intro off t options e
  have hwritten : ∀ s ∈ t.commands, ∃ f, (e.writeStep [] options s).2 = .ok f :=
    List.forall_mem_singleton.mpr ⟨_, congrArg Prod.snd (writeStep_disabled (by decide))⟩
  have hexportable : e.Exportable "main" [t] [] options := by
    refine .of_pool (by decide) (by decide) ?_ (by decide) (by decide) (by decide) (by decide)
    exact List.forall_mem_singleton.mpr hwritten
  have hclass := assemble_eq_ok_iff.mpr ⟨hexportable, rfl⟩
  have ht : Involved [] [t] t := .inl (by simp)
  obtain ⟨placed, hplaced, hlines, hstays, hends⟩ :=
    comments_stay_comments_iff e "main" [t] [] options hclass ht
  have hname : EndsLine t.name.toList := .inr (by decide)
  refine ⟨_, placed, hclass, ht, hplaced, hlines, fun hall => ?_, hends.mpr ⟨rfl, hname⟩⟩
  exact (hstays.mp hall).name rfl (.inl hname)

end Exporter

end CestWriter
