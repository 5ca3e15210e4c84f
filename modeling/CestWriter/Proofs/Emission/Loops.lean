import CestWriter.Proofs.Layout.Nesting
import CestWriter.Proofs.Number.Exact
import CestWriter.Proofs.Recording.Interpolation
import CestWriter.Proofs.Recording.Loops

/-! # The lines of loops are read back -/

namespace CestWriter

open Php (Instruction Operand)

/-! ## Arguments without references -/

theorem Tokens.of_no_dollar {cs : List Char} (h : ∀ c ∈ cs, c ≠ '$') : Tokens cs (cs.map .char) := by
  induction cs with
  | nil => exact .nil
  | cons c cs ih =>
      have hc : ¬ BeginsReference (c :: cs) := fun hb => h c (by simp) hb.head
      exact .char hc (ih fun d hd => h d (by simp [hd]))

/-- The character of a numeral: a digit or a minus. -/
theorem Number.mem_toString {n : Int} {c : Char} (h : c ∈ (toString n).toList) :
    c = '-' ∨ c.isDigit = true := by
  rcases isInteger_toString n with hn | ⟨ds, hds, hn, -⟩
  · exact .inr (hn.isDigit c h)
  · rw [hds] at h
    rcases List.mem_cons.mp h with rfl | h
    · exact .inl rfl
    · exact .inr (hn.isDigit c h)

theorem Argument.text_toString (n : Int) : Argument.text (toString n) = toString n := by
  have hplain : ∀ c ∈ (toString n).toList, c ≠ '$' ∧ c ≠ '\'' ∧ c ≠ '\\' := by
    intro c hc
    rcases Number.mem_toString hc with rfl | hd
    · decide
    · refine ⟨?_, ?_, ?_⟩ <;> rintro rfl <;> exact absurd hd (by decide)
  have htokens := Tokens.of_no_dollar fun c hc => (hplain c hc).1
  apply String.toList_injective
  rw [Argument.toList_text htokens, flatMap_text_chars,
    Php.escapeChars_verbatim fun c hc => (hplain c hc).2]

theorem Text.trim_toString (n : Int) : Text.trim (toString n) = toString n := by
  have hblank : ∀ c ∈ (toString n).toList, Text.isBlank c = false := by
    intro c hc
    rcases Number.mem_toString hc with rfl | hd
    · decide
    · have hbounds : 48 ≤ c.toNat ∧ c.toNat ≤ 57 := by
        simpa [Char.isDigit, UInt32.le_iff_toNat_le] using hd
      simp only [Text.isBlank, Bool.or_eq_false_iff, Bool.and_eq_false_iff, beq_eq_false_iff_ne,
        decide_eq_false_iff_not]
      omega
  have hdrop : ∀ cs : List Char, (∀ c ∈ cs, Text.isBlank c = false) →
      cs.dropWhile Text.isBlank = cs := by
    intro cs h
    cases cs with
    | nil => rfl
    | cons c cs => exact List.dropWhile_cons_of_neg (by simp [h c (by simp)])
  apply String.toList_injective
  rw [Text.trim, String.toList_ofList, Text.trimChars, hdrop _ hblank,
    hdrop _ fun c hc => hblank c (by simpa using hc), List.reverse_reverse]

/-! ## One step -/

/-- The lines that a step is written as. -/
def Step.lines (setting : Setting) (s : Step) : List String :=
  (s.written setting).lines.map (·.statement)

variable {setting : Setting}

theorem Control.emit_eq {command : String} (c : Control [command]) {a : Action} {form : Form}
    (hs : Text.startsWith "//" command = false) (ha : Action.ofCommand? command = some a)
    (hform : a.compose setting c.step = .ok form) :
    Registry.builtin.emit setting c.step = .ok form.render := by
  obtain hcommand : c.step.command = command := List.mem_singleton.mp c.named
  have hdisabled : c.step.isDisabled = false := by rw [Step.isDisabled, hcommand, hs]
  refine (Registry.emit_builtin_eq_ok_iff hdisabled).mpr ⟨a, form, ?_, hform, ?_⟩
  · rw [hcommand, ha]
  · simp [c.noWindow]

theorem Step.lines_of_emit {s : Step} {f : Fragment} (h : Registry.builtin.emit setting s = .ok f) :
    s.lines setting = f.lines.map (·.statement) := by
  rw [lines, written, h, Except.toOption, Option.getD_some]

theorem Control.emit_end (c : Control ["end"]) :
    Registry.builtin.emit setting c.step = .ok (Emission.flow [.code "\x7d"] (-1) 0).render :=
  c.emit_eq (a := .endBlock) (by decide) (by decide +kernel) rfl

theorem Repeat.emit (head : Repeat) : Registry.builtin.emit setting head.step =
    .ok (Form.block [(0, [.code "$times = ", .int head.count, .code ";"]),
      (0, [.code "for ($c = 0; $c < $times; $c++) \x7b"])] 0 1).render := by
  have hcount : Emission.repeatCount (Argument.text head.step.target) = .ok [.int head.count] := by
    rw [head.literal, Argument.text_toString, Emission.repeatCount, Text.trim_toString,
      Number.floor64?_toString head.exact]
  refine head.emit_eq (by decide) (by decide +kernel) (a := .times) ?_
  change Emission.times _ = _
  rw [Emission.times, hcount]
  rfl

theorem Visit.emit (head : Visit) : Registry.builtin.emit setting head.step =
    .ok (Emission.forEach head.step.target head.step.value).render :=
  head.emit_eq (a := .forEach) (by decide) (by decide +kernel) rfl

/-! ## Reading the lines of one step -/

section

open Php (readLines Statement Piece)

theorem readLines_block {rows : Form.Lines} {before after : Int} {code : List Instruction}
    (h : List.Forall₂ (fun row x => Instruction.read? (Statement.render row.2).toList = some x)
      rows code) :
    readLines ((Form.block rows before after).render.lines.map (·.statement)) = some code := by
  induction h with
  | nil => rfl
  | @cons row x rows code hx _ ih =>
      have hone : readLines [Statement.render row.2] = some [x] := by simp [readLines, hx]
      exact Php.readLines_append hone ih

theorem Control.readLines_end (c : Control ["end"]) :
    readLines (c.step.lines setting) = some [.close] := by
  have hclose : (Statement.render [.code "\x7d"]).toList = ['\x7d'] := by decide
  rw [Step.lines_of_emit c.emit_end]
  exact readLines_block (.cons (by rw [hclose, Instruction.read?_close]) .nil)

theorem Repeat.readLines (head : Repeat) :
    readLines (head.step.lines setting) = some [.setTimes head.count, .loop .times] := by
  have hset : (Statement.render [.code "$times = ", .int head.count, .code ";"]).toList =
      Instruction.timesFront ++ (toString head.count).toList ++ [';'] := by
    simp [Statement.toList_render, Piece.render, Instruction.timesFront]
  have hloop : (Statement.render [.code "for ($c = 0; $c < $times; $c++) \x7b"]).toList =
      Instruction.timesLoop := by
    simp [Statement.toList_render, Piece.render, Instruction.timesLoop, Instruction.loopFront]
  rw [Step.lines_of_emit head.emit]
  refine readLines_block (.cons ?_ (.cons ?_ .nil))
  · rw [hset, Instruction.read?_setTimes]
  · rw [hloop, Instruction.read?_timesLoop]

theorem Visit.readLines (head : Visit) :
    readLines (head.step.lines setting) = some [.setCollection head.step.target,
      .loop .collection, .bind head.step.value] := by
  have hset : (Statement.render [.code "$collection = ", .slot head.step.target, .code ";"]).toList =
      Instruction.collectionFront ++
        (Operand.slotFront ++ head.step.target.toList ++ ['\'', ']'] ++ [';']) := by
    simp [Statement.toList_render, Piece.render, Instruction.collectionFront, Php.slot,
      Operand.slotFront]
  have hloop : (Statement.render
      [.code "for ($c = 0; $c < count($collection); $c++) \x7b"]).toList =
      Instruction.collectionLoop := by
    simp [Statement.toList_render, Piece.render, Instruction.collectionLoop, Instruction.loopFront]
  have hbind : (Statement.render [.slot head.step.value, .code " = $collection[$c];"]).toList =
      Operand.slotFront ++ head.step.value.toList ++ ['\'', ']'] ++ Instruction.bindBack := by
    simp [Statement.toList_render, Piece.render, Instruction.bindBack, Php.slot, Operand.slotFront]
  rw [Step.lines_of_emit head.emit]
  refine readLines_block (.cons ?_ (.cons ?_ (.cons ?_ .nil)))
  · rw [hset, Instruction.read?_setCollection head.collection, String.ofList_toList]
  · rw [hloop, Instruction.read?_collectionLoop]
  · rw [hbind, Instruction.read?_bind head.item, String.ofList_toList]

end

/-! ## Programs -/

/-- A plain step that is written, and whose lines have no part in a loop. -/
def Step.IsOpaque (setting : Setting) (s : Step) : Prop :=
  (∃ f, Registry.builtin.emit setting s = .ok f) ∧
    Php.readLines (s.lines setting) = some ((s.lines setting).map .perform)

/-- The lines that a program is written as, without their margins. -/
def Loops.lines (setting : Setting) (p : Loops) : Except EmitError (List String) :=
  (p.steps.mapM (Registry.builtin.emit setting)).map fun fs =>
    (Level.start.placeAll fs).1.map (·.statement)

theorem Level.statements_placeAll (l : Level) (fs : List Fragment) :
    (l.placeAll fs).1.map (·.statement) = fs.flatMap fun f => f.lines.map (·.statement) := by
  induction fs generalizing l with
  | nil => rfl
  | cons f fs ih => simp [placeAll, place, ih, Line.raise, Function.comp_def]

namespace Loops

variable {p : Loops}

/-- The plain steps of a program are opaque. -/
def IsOpaque (setting : Setting) (p : Loops) : Prop :=
  ∀ s ∈ p.plainSteps, s.IsOpaque setting

theorem readLines_steps (h : p.IsOpaque setting) :
    Php.readLines (p.steps.flatMap (Step.lines setting)) = some (p.code (Step.lines setting)) := by
  induction p with
  | done => rfl
  | plain s hs next ih =>
      obtain ⟨hstep, hnext⟩ := List.forall_mem_cons.mp h
      exact Php.readLines_append hstep.2 (ih hnext)
  | times head body tail next ihb ihn | forEach head body tail next ihb ihn =>
      obtain ⟨hbody, hnext⟩ := List.forall_mem_append.mp h
      simpa [steps, code] using Php.readLines_append head.readLines
        (Php.readLines_append (ihb hbody) (Php.readLines_append tail.readLines_end (ihn hnext)))

theorem emit_of_mem_steps (h : p.IsOpaque setting) :
    ∀ s ∈ p.steps, ∃ f, Registry.builtin.emit setting s = .ok f := by
  induction p with
  | done => simp [steps]
  | plain s _ next ih =>
      obtain ⟨hstep, hnext⟩ := List.forall_mem_cons.mp h
      exact List.forall_mem_cons.mpr ⟨hstep.1, ih hnext⟩
  | times head body tail next ihb ihn | forEach head body tail next ihb ihn =>
      obtain ⟨hbody, hnext⟩ := List.forall_mem_append.mp h
      have hrest := List.forall_mem_cons.mpr ⟨⟨_, tail.emit_end⟩, ihn hnext⟩
      exact forall_mem_headed.mpr ⟨⟨_, head.emit⟩, ihb hbody, hrest⟩

/-- An opaque program is written, and its lines are read as its code. -/
theorem readLines_lines (h : p.IsOpaque setting) :
    ∃ lines, p.lines setting = .ok lines ∧
      Php.readLines lines = some (p.code (Step.lines setting)) := by
  have hall : List.Forall₂ (fun s f => Registry.builtin.emit setting s = .ok f) p.steps
      (p.steps.map (Step.written setting)) := by
    rw [List.forall₂_map_right_iff, List.forall₂_same]
    intro s hm
    obtain ⟨f, hf⟩ := emit_of_mem_steps h s hm
    rw [Step.written, hf, Except.toOption, Option.getD_some]
  refine ⟨p.steps.flatMap (Step.lines setting), ?_, readLines_steps h⟩
  rw [lines, mapM_eq_ok_iff.mpr hall, Except.map, Level.statements_placeAll, List.flatMap_map]
  rfl

theorem IsOpaque.twice (h : p.IsOpaque setting) : p.twice.IsOpaque setting := by
  rwa [IsOpaque, plainSteps_twice]

end Loops

end CestWriter
