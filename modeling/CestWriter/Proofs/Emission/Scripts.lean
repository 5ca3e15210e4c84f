import CestWriter.Proofs.Emission.Registry
import CestWriter.Proofs.Php.ScriptCall
import CestWriter.Proofs.Recording.ScriptArguments

/-! # Scripts and their arguments

The script of a step and the array of its arguments are written by two functions, and only the script
is escaped. Read back by the rules of PHP, the two fit together. -/

namespace CestWriter

open Php (Piece Statement Operand)

/-! ## The text of a call -/

namespace Emission

theorem toList_slot {name : String} (h : IsName name.toList) :
    (Piece.slot name).render.toList = (Operand.slot name.toList).text := by
  simp [Piece.render, Php.slot, Operand.text, Operand.slotFront, escapeChars_name h.2]

theorem toList_literal (value : String) :
    (Piece.literal value).render.toList = (Operand.literal value.toList).text := by
  simp [Piece.render, Php.literal, Php.escape, Operand.text]

theorem flatMap_slots {argv : List String} (hne : argv ≠ []) (h : ∀ name ∈ argv, IsName name.toList) :
    ((argv.map Piece.slot).intersperse (.code ",")).flatMap (fun p => p.render.toList) ++ [']'] =
      Php.itemsText (argv.map fun name => .slot name.toList) := by
  induction argv with
  | nil => exact (hne rfl).elim
  | cons name argv ih =>
      obtain ⟨hname, hargv⟩ := List.forall_mem_cons.mp h
      cases argv with
      | nil => simp [Php.itemsText, toList_slot hname]
      | cons other argv =>
          have ih := ih (by simp) hargv
          simp only [List.map_cons, List.intersperse_cons_cons, List.flatMap_cons, Php.itemsText,
            toList_slot hname, List.append_assoc] at ih ⊢
          rw [ih]
          simp [Piece.render]

theorem toList_scriptArguments {argv : List String} (h : ∀ name ∈ argv, IsName name.toList) :
    (Statement.render (scriptArguments argv)).toList =
      if argv = [] then []
      else [',', ' ', '['] ++ Php.itemsText (argv.map fun name => .slot name.toList) := by
  rw [Statement.toList_render]
  by_cases hne : argv = []
  · simp [scriptArguments, hne]
  · rw [if_neg hne, ← flatMap_slots hne h]
    simp [scriptArguments, hne, Piece.render]

/-- A script that runs in the page is written as one call with its names for arguments. -/
theorem toList_runInPage (before after : String) {s : Script} (h : ∀ name ∈ s.argv, IsName name.toList) :
    (Statement.render (runInPage before after s)).toList =
      Php.callText (before ++ s.script ++ after).toList (s.argv.map fun name => .slot name.toList) := by
  have hrun : runInPage before after s = .code "$i->executeJS(" ::
      .literal (before ++ s.script ++ after) :: (scriptArguments s.argv ++ [.code ")"]) := rfl
  have hfront : (Piece.code "$i->executeJS(").render.toList = Php.callFront := rfl
  have hback : (Statement.render [.code ")"]).toList = [')'] := rfl
  rw [hrun, Statement.render_cons, Statement.render_cons, String.toList_append,
    String.toList_append, Statement.toList_render_append, hfront, hback, toList_literal,
    toList_scriptArguments h, Php.callText]
  simp only [List.map_eq_nil_iff, List.append_assoc]

end Emission

/-! ## Steps with a script -/

/-- What stands around a call, and what is put around its script. -/
structure ScriptFrame where
  lead : String
  before : String
  after : String
  trail : String

/-- The commands whose target is a script that runs in the page. Conditions return its value, and a
value can be stored under a name. -/
def scriptFrames (name : String) : List (String × ScriptFrame) := [
  ("if", ⟨"if (", "return (", ")", ") \x7b"⟩),
  ("elseIf", ⟨"\x7d elseif (", "return (", ")", ") \x7b"⟩),
  ("while", ⟨"while (", "return (", ")", ") \x7b"⟩),
  ("repeatIf", ⟨"\x7d while (", "return (", ")", ");"⟩),
  ("executeScript", ⟨if name.isEmpty then "" else Php.slot name ++ " = ", "", "", ";"⟩),
  ("runScript", ⟨"", "", "", ";"⟩)]

/-- The script and the arguments of a call line up with the tokens of a recorded script: characters
stay as they are, every reference has become a position that holds its name, and the array reads each
name once, in the order of the first references. -/
structure LinesUp (ts : List Token) (argv : List String) (script : List Char)
    (items : Option (List Operand)) : Prop where
  positional : Positional argv ts script
  argv_eq : argv = (Token.names ts).eraseDups
  nodup : argv.Nodup
  items_eq : items.getD [] = argv.map fun name => .slot name.toList
  omitted_iff : items = none ↔ Token.names ts = []

namespace Emission

variable {s : Step} {frame : ScriptFrame}

/-- The line of a step with a script: a call in its frame. -/
def scriptLine (frame : ScriptFrame) (lead : Statement) (raw : String) : Statement :=
  lead ++ runInPage frame.before frame.after (Argument.script raw) ++ [.code frame.trail]

theorem toList_scriptLine {lead : Statement} (hlead : lead.render = frame.lead) (raw : String) :
    (scriptLine frame lead raw).render.toList = frame.lead.toList ++
      (Php.callText (frame.before ++ (Argument.script raw).script ++ frame.after).toList
        ((Argument.script raw).argv.map fun name => .slot name.toList) ++ frame.trail.toList) := by
  have htrail : (Statement.render [.code frame.trail]).toList = frame.trail.toList := by
    rw [Statement.render_cons, Statement.render_nil, String.append_empty, Piece.render]
  rw [scriptLine, Statement.toList_render_append, Statement.toList_render_append, hlead, htrail,
    toList_runInPage _ _ fun _ hm => Argument.isName_of_mem_argv hm, List.append_assoc]

theorem scriptLine_ne_empty {lead : Statement} (hlead : lead.render = frame.lead) (raw : String) :
    (scriptLine frame lead raw).render.isEmpty = false := by
  rw [Bool.eq_false_iff, ne_eq, String.isEmpty_iff, ← String.toList_eq_nil_iff,
    toList_scriptLine hlead]
  simp [Php.callText]

theorem mem_lines_callOrStore (frame : ScriptFrame) {name : String} (hframe : frame.trail = ";")
    (hlead : frame.lead = if name.isEmpty then "" else Php.slot name ++ " = ") (raw : String) :
    ∃ lead : Statement, lead.render = frame.lead ∧ ⟨0, (scriptLine frame lead raw).render⟩ ∈
      (callOrStore (runInPage frame.before frame.after (Argument.script raw)) name).render.lines := by
  cases hname : name.isEmpty with
  | true =>
      have hnothing : Statement.render [] = frame.lead := by simp [hlead, hname, Statement.render_nil]
      refine ⟨[], hnothing, ?_⟩
      have hline := Form.mem_lines_statement (scriptLine_ne_empty hnothing raw)
      simpa [scriptLine, callOrStore, hname, hframe] using hline
  | false =>
      have hslot : Statement.render [.slot name, .code " = "] = frame.lead := by
        simp [hlead, hname, Statement.render_cons, Statement.render_nil, Piece.render]
      refine ⟨_, hslot, ?_⟩
      have hline := Form.mem_lines_statement (scriptLine_ne_empty hslot raw)
      simpa [scriptLine, callOrStore, Statement.assign, hname, hframe] using hline

/-- Each of the commands is an action that can be composed of any script. -/
theorem compose_script (setting : Setting) (h : (s.command, frame) ∈ scriptFrames s.value) :
    ∃ a form lead, s.isDisabled = false ∧ Action.ofCommand? s.command = some a ∧
      a.compose setting s = .ok form ∧ lead.render = frame.lead ∧
      ⟨0, (scriptLine frame lead s.target).render⟩ ∈ form.render.lines := by
  simp only [scriptFrames, List.mem_cons, Prod.mk.injEq, List.not_mem_nil, or_false] at h
  rcases h with ⟨hs, rfl⟩ | ⟨hs, rfl⟩ | ⟨hs, rfl⟩ | ⟨hs, rfl⟩ | ⟨hs, rfl⟩ | ⟨hs, rfl⟩ <;>
    rw [Step.isDisabled, hs]
  · exact ⟨.ifBranch, _, [.code "if ("], by decide, by decide +kernel, rfl, rfl,
      Form.mem_lines_block (.head _)⟩
  · exact ⟨.elseIf, _, [.code "\x7d elseif ("], by decide, by decide +kernel, rfl, rfl,
      Form.mem_lines_block (.head _)⟩
  · exact ⟨.whileLoop, _, [.code "while ("], by decide, by decide +kernel, rfl, rfl,
      Form.mem_lines_block (.head _)⟩
  · exact ⟨.repeatIf, _, [.code "\x7d while ("], by decide, by decide +kernel, rfl, rfl,
      Form.mem_lines_block (.head _)⟩
  · obtain ⟨lead, hlead, hline⟩ := mem_lines_callOrStore ⟨_, "", "", ";"⟩ rfl rfl s.target
    exact ⟨.executeScript, _, lead, by decide, by decide +kernel, rfl, hlead, hline⟩
  · have hne : (scriptLine ⟨"", "", "", ";"⟩ [] s.target).render.isEmpty = false :=
      scriptLine_ne_empty rfl s.target
    exact ⟨.runScript, _, [], by decide, by decide +kernel, rfl, rfl, Form.mem_lines_statement hne⟩

theorem linesUp_script {ts : List Token} (h : Tokens s.target.toList ts) :
    LinesUp ts (Argument.script s.target).argv (Argument.script s.target).script.toList
      (if ((Argument.script s.target).argv.map fun name => Operand.slot name.toList) = [] then none
        else some ((Argument.script s.target).argv.map fun name => .slot name.toList)) := by
  obtain ⟨hargv, hpositional⟩ := Argument.script_positional h
  have hempty : (Argument.script s.target).argv = [] ↔ Token.names ts = [] := by
    rw [hargv, List.eq_nil_iff_forall_not_mem, List.eq_nil_iff_forall_not_mem]
    simp only [List.mem_eraseDups]
  refine ⟨hpositional, hargv, hargv ▸ nodup_eraseDups _, ?_, ?_⟩
  · split
    · next hnone => rw [hnone, Option.getD_none]
    · rfl
  · rw [← hempty, ite_eq_left_iff]
    simp

end Emission

/-- Script arguments line up. Every step with a script is written, as a call of `executeJS` in the
frame of its command. Read by the rules of PHP, the script of the call is the recorded one, and its
references are positions of the array that follows. -/
theorem script_arguments_line_up (setting : Setting) (s : Step) {frame : ScriptFrame}
    (h : (s.command, frame) ∈ scriptFrames s.value) :
    ∃ f line call ts argv script items, Registry.builtin.emit setting s = .ok f ∧ line ∈ f.lines ∧
      line.statement.toList = frame.lead.toList ++ call ∧
      Php.readCall? call =
        some (frame.before.toList ++ script ++ frame.after.toList, items, frame.trail.toList) ∧
      Tokens s.target.toList ts ∧ LinesUp ts argv script items := by
  obtain ⟨a, form, lead, henabled, haction, hform, hlead, hline⟩ :=
    Emission.compose_script setting h
  obtain ⟨f, hf, hlines⟩ := Registry.exists_emit_builtin henabled haction hform
  obtain ⟨ts, hts⟩ : ∃ ts, Tokens s.target.toList ts := ⟨_, (Segment.tokens_iff _ _).mpr rfl⟩
  refine ⟨f, _, _, ts, _, _, _, hf, hlines _ hline, Emission.toList_scriptLine hlead s.target, ?_,
    hts, Emission.linesUp_script hts⟩
  rw [Php.readCall?_callText, String.toList_append, String.toList_append]

/-- A condition that refers to one name twice. -/
theorem script_arguments_line_up_of_twice :
    let s : Step := { Step.blank with command := "if", target := "${a} < ${b} || ${a} == 0" }
    let frame : ScriptFrame := ⟨"if (", "return (", ")", ") \x7b"⟩
    (s.command, frame) ∈ scriptFrames s.value ∧
    ∃ f line call ts argv script items,
      Registry.builtin.emit ⟨"", .webDriver⟩ s = .ok f ∧ line ∈ f.lines ∧
      line.statement.toList = frame.lead.toList ++ call ∧
      Php.readCall? call =
        some (frame.before.toList ++ script ++ frame.after.toList, items, frame.trail.toList) ∧
      Tokens s.target.toList ts ∧ LinesUp ts argv script items := by
  intro s frame
  have hframe : (s.command, frame) ∈ scriptFrames s.value := .head _
  exact ⟨hframe, script_arguments_line_up ⟨"", .webDriver⟩ s hframe⟩

end CestWriter
