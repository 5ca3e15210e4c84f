import CestWriter.Proofs.Emission.Registry
import CestWriter.Proofs.Layout.Blocks
import CestWriter.Proofs.Text.Lead

/-! # What each action does to the blocks around it -/

namespace CestWriter

open Php (Piece Statement)

inductive Role
  | plain
  /-- Opens a block. -/
  | opening
  /-- Closes a block and opens another in its place. -/
  | continuing
  | closing
  deriving DecidableEq

def Action.role : Action → Role
  | ifBranch | whileLoop | doLoop | times | forEach => .opening
  | elseIf | elseBranch => .continuing
  | repeatIf | endBlock => .closing
  | _ => .plain

/-- The shifts of level and the marks of the lines that go with a role. An opening fragment may
have lines before the block and first lines in it. -/
inductive Role.Plays : Role → Int → Int → List (Option Mark) → Prop
  | plain {marks} (h : marks.foldlM Mark.pass 0 = some 0) : Plays .plain 0 0 marks
  | opening (n m : Nat) : Plays .opening 0 1 (List.replicate n (some ⟨0, false, false⟩) ++
      some ⟨0, false, true⟩ :: List.replicate m (some ⟨1, false, false⟩))
  | continuing : Plays .continuing (-1) 1 [some ⟨0, true, true⟩]
  | closing : Plays .closing (-1) 0 [some ⟨0, true, false⟩]

def Fragment.Plays (f : Fragment) (r : Role) : Prop :=
  r.Plays f.before f.after (f.lines.map Line.mark?)

/-! ## The ends of a row -/

namespace Row

/-- The character that every text of a row begins with. -/
def first? : Row → Option Char
  | .code text :: _ => text.toList.head?
  | .slot :: _ => some '$'
  | _ => none

/-- The character that every text of a row ends with. -/
def last? (row : Row) : Option Char :=
  match row.getLast? with
  | some (.code text) => text.toList.getLast?
  | _ => none

/-- The mark of every line that follows a row. -/
def mark? (row : Nat × Row) : Option Mark :=
  match row.2.first?, row.2.last? with
  | some first, some last =>
    if first = '/' then none else some ⟨row.1, first == '}', last == '{'⟩
  | _, _ => none

end Row

namespace Follows

variable {H : Holes} {s : Statement} {row : Row}

theorem head?_render {c : Char} (h : Follows H s row) (hc : row.first? = some c) :
    (Statement.render s).toList.head? = some c := by
  rw [Statement.toList_render]
  cases h with
  | nil => simp [Row.first?] at hc
  | cons hp _ =>
      cases hp with
      | code => simpa [Row.first?, Piece.render] using .inl hc
      | slot _ =>
          obtain rfl := Option.some.inj hc
          simp [Piece.render, Php.slot]
      | _ => simp [Row.first?] at hc

theorem getLast?_render {c : Char} (h : Follows H s row) (hc : row.last? = some c) :
    (Statement.render s).toList.getLast? = some c := by
  rw [Statement.toList_render]
  induction h with
  | nil => simp [Row.last?] at hc
  | @cons p x s row hp hrest ih =>
      cases row with
      | nil =>
          cases hrest
          cases hp with
          | code => simpa [Row.last?, Piece.render] using hc
          | _ => simp [Row.last?] at hc
      | cons q row =>
          have hlast : (p :: q :: row).getLast? = (q :: row).getLast? := by simp
          have ih := ih (by simpa [Row.last?, hlast] using hc)
          simp [List.flatMap_append, List.getLast?_append, ih]

end Follows

theorem Line.mark?_of_follows {H : Holes} {l : Line} {s : Statement} {row : Nat × Row} {m : Mark}
    (hlevel : l.level = row.1) (hs : l.statement = s.render) (h : Follows H s row.2)
    (hm : Row.mark? row = some m) : l.mark? = some m := by
  unfold Row.mark? at hm
  split at hm
  · rename_i first last hf hl
    split at hm
    · simp at hm
    · rename_i hslash
      have hhead := hs ▸ h.head?_render hf
      have hlast := hs ▸ h.getLast?_render hl
      rw [Line.mark?_of_ends hhead hlast hslash, hlevel, hm]
  · simp at hm

/-- The marks of a template are those of all that follows it. -/
theorem Fragment.Follows.marks_eq {H : Holes} {f : Fragment} {t : Template} (h : f.Follows H t)
    (ht : ∀ row ∈ t.rows, (Row.mark? row).isSome) : f.lines.map Line.mark? = t.rows.map Row.mark? := by
  have hlines := h.lines
  generalize f.lines = lines at hlines
  generalize t.rows = rows at hlines ht
  induction hlines with
  | nil => rfl
  | cons hl _ ih =>
      obtain ⟨hlevel, s, hs, hfollows⟩ := hl
      obtain ⟨m, hm⟩ := Option.isSome_iff_exists.mp (ht _ (.head _))
      rw [List.map_cons, List.map_cons, ih fun row hr => ht row (by simp [hr]), hm,
        Line.mark?_of_follows hlevel hs hfollows hm]

/-! ## Rows that leave the blocks alone -/

namespace Row

/-- Neither opens nor closes a block, at whatever level. -/
def IsQuiet (row : Row) : Prop :=
  ∀ n, mark? (n, row) = some ⟨n, false, false⟩

theorem isQuiet {row : Row} {first last : Char} (hf : row.first? = some first)
    (hl : row.last? = some last) (h : first ≠ '/' ∧ first ≠ '}' ∧ last ≠ '{') : row.IsQuiet := by
  intro n
  simp [mark?, hf, hl, h]

theorem last?_append_code (row : Row) (text : String) :
    last? (row ++ [.code text]) = text.toList.getLast? := by
  simp [last?]

theorem isQuiet_act (method : String) (args : List Row) : (Row.act method args).IsQuiet :=
  isQuiet rfl (last?_append_code ([.code "$i->", .code method, .code "("] ++ commas args) ");")
    (by decide)

theorem isQuiet_assign (value : Row) : (Row.assign value).IsQuiet :=
  isQuiet rfl (last?_append_code (.slot :: .code " = " :: value) ";") (by decide)

/-- Rows that leave all blocks closed that they open. -/
structure Closed (rows : List (Nat × Row)) : Prop where
  marked : ∀ row ∈ rows, (mark? row).isSome
  aligned : (rows.map mark?).foldlM Mark.pass 0 = some 0

namespace Closed

variable {rows rows' : List (Nat × Row)} {row : Row}

theorem nil : Closed [] :=
  ⟨by simp, rfl⟩

theorem append (h : Closed rows) (h' : Closed rows') : Closed (rows ++ rows') := by
  constructor
  · intro row hm
    rcases List.mem_append.mp hm with hm | hm
    · exact h.marked row hm
    · exact h'.marked row hm
  · rw [List.map_append, List.foldlM_append, h.aligned]
    exact h'.aligned

theorem one (h : row.IsQuiet) : Closed [(0, row)] :=
  ⟨by simp [h 0], by simp [h 0, Mark.pass, Mark.step]⟩

theorem cons (h : row.IsQuiet) (h' : Closed rows) : Closed ((0, row) :: rows) :=
  (one h).append h'

theorem withDriver {shared : Option String} {body : List Row} (h : ∀ row ∈ body, row.IsQuiet) :
    Closed (Row.withDriver shared body) := by
  obtain ⟨opening, ho, hrows⟩ : ∃ opening, mark? (0, opening) = some ⟨0, false, true⟩ ∧
      Row.withDriver shared body =
        (0, opening) :: body.map ((1, ·)) ++ [(0, [.code "\x7d);"])] := by
    cases shared with
    | none => exact ⟨_, by decide, rfl⟩
    | some temporary => exact ⟨_, rfl, rfl⟩
  have hc : mark? (0, [.code "\x7d);"]) = some ⟨0, true, false⟩ := by decide
  have hbody : (body.map ((1, ·))).map mark? =
      List.replicate body.length (some ⟨1, false, false⟩) := by
    rw [List.eq_replicate_iff, List.length_map, List.length_map]
    simpa using fun row hm => h row hm 1
  rw [hrows]
  constructor
  · intro row hm
    simp only [List.cons_append, List.mem_cons, List.mem_append, List.mem_map, List.not_mem_nil,
      or_false] at hm
    rcases hm with rfl | ⟨r, hr, rfl⟩ | rfl
    · simp [ho]
    · simp [h r hr 1]
    · simp [hc]
  · rw [List.cons_append, List.map_cons, List.map_append, hbody, ho, List.foldlM_cons]
    change List.foldlM Mark.pass 1 _ = some 0
    rw [List.foldlM_append, Mark.pass_replicate]
    simp [hc, Mark.pass, Mark.step]

end Closed

end Row

/-! ## Templates -/

/-- The lines of a template are marked, and they play a role. -/
structure Template.Plays (t : Template) (r : Role) : Prop where
  marked : ∀ row ∈ t.rows, (Row.mark? row).isSome
  plays : r.Plays t.before t.after (t.rows.map Row.mark?)

namespace Template

theorem plays_flat {rows : List (Nat × Row)} (h : Row.Closed rows) : (flat rows).Plays .plain :=
  ⟨h.marked, .plain h.aligned⟩

theorem plays_statement {row : Row} (h : row.IsQuiet) : (statement row).Plays .plain :=
  plays_flat (.one h)

theorem isQuiet_findElement : Row.IsQuiet Row.findElement :=
  Row.isQuiet rfl rfl (by decide)

theorem plays_driver {row : Row} (h : row.IsQuiet) :
    (flat (Row.withDriver none [Row.findElement, row])).Plays .plain := by
  apply plays_flat
  apply Row.Closed.withDriver
  intro r hm
  rcases List.mem_cons.mp hm with rfl | hm
  · exact isQuiet_findElement
  · exact List.mem_singleton.mp hm ▸ h

theorem plays_fetch {row : Row} (h : row.IsQuiet) :
    (flat (Row.fetchElement ++ [(0, row)])).Plays .plain := by
  have hnull : Row.IsQuiet [.code "$element = null;"] := Row.isQuiet rfl rfl (by decide)
  have hdriver : Row.Closed (Row.withDriver (some "element") [Row.findElement]) :=
    .withDriver fun row hm => List.mem_singleton.mp hm ▸ isQuiet_findElement
  exact plays_flat ((hdriver.cons hnull).append (.one h))

theorem plays_capture {temporary : String} {value : Row} {t : Template}
    (ht : t ∈ capture temporary value) : t.Plays .plain := by
  have hnull : Row.IsQuiet [.code "$", .code temporary, .code " = null;"] :=
    Row.isQuiet rfl rfl (by decide)
  have hread : Row.IsQuiet
      ([Part.code "$", .code temporary, .code " = "] ++ value ++ [Part.code ";"]) :=
    Row.isQuiet rfl (Row.last?_append_code _ ";") (by decide)
  have hdriver : Row.Closed (Row.withDriver (some temporary)
      [[Part.code "$", .code temporary, .code " = "] ++ value ++ [Part.code ";"]]) :=
    .withDriver fun row hm => List.mem_singleton.mp hm ▸ hread
  have hrows := hdriver.cons hnull
  simp only [capture, List.mem_cons, List.not_mem_nil, or_false] at ht
  rcases ht with rfl | rfl
  · exact plays_flat hrows
  · exact plays_flat (hrows.append (.one (Row.isQuiet_assign _)))

theorem plays_repeated (count : Row) : (repeated count).Plays .opening := by
  have hset : Row.IsQuiet ([Part.code "$times = "] ++ count ++ [Part.code ";"]) :=
    Row.isQuiet rfl (Row.last?_append_code _ ";") (by decide)
  have hfor : Row.mark? (0, [.code "for ($c = 0; $c < $times; $c++) \x7b"]) =
      some ⟨0, false, true⟩ := by decide
  constructor
  · intro row hm
    simp only [repeated, List.mem_cons, List.not_mem_nil, or_false] at hm
    rcases hm with rfl | rfl
    · rw [hset 0, Option.isSome_some]
    · rw [hfor, Option.isSome_some]
  · simp only [repeated, List.map_cons, List.map_nil, hset 0, hfor]
    exact .opening 1 0

theorem plays_flow {row : Row} {before after : Int} {m : Mark} {r : Role}
    (hm : Row.mark? (0, row) = some m) (h : r.Plays before after [some m]) :
    (flow row before after).Plays r := by
  constructor
  · intro row' hm'
    obtain rfl := List.mem_singleton.mp hm'
    rw [hm, Option.isSome_some]
  · simpa only [flow, List.map_cons, List.map_nil, hm] using h

end Template

/-- Every template of an action plays the role of the action. -/
theorem Action.plays_of_mem_templates {a : Action} {t : Template} (h : t ∈ a.templates) :
    t.Plays a.role := by
  cases a with
  | closeTab | setWindowSize | click | doubleClick | check | uncheck | dragAndDrop | selectOption
  | sendKeys | acceptPopup | cancelPopup | assertAlert | assertStored | verifyChecked
  | verifyNotChecked | verifyElementPresent | verifyElementNotPresent | verifyText | verifyNotText
  | verifyTitle | verifyValue | verifySelectedLabel | verifyNotSelectedValue | pause
  | waitForElementPresent | waitForElementVisible | waitForElementNotVisible | waitForText =>
      obtain rfl := List.mem_singleton.mp h
      exact Template.plays_statement (Row.isQuiet_act _ _)
  | openPage | submit | setSpeed | echo | runTest | runScript =>
      obtain rfl := List.mem_singleton.mp h
      exact Template.plays_statement (Row.isQuiet rfl rfl (by decide))
  | mouseDown | mouseMove | mouseUp | mouseOut | waitForElementNotPresent | waitForElementEditable | waitForElementNotEditable =>
      obtain rfl := List.mem_singleton.mp h
      exact Template.plays_driver (Row.isQuiet rfl rfl (by decide))
  | editContent | verifyEditable | verifyNotEditable =>
      obtain rfl := List.mem_singleton.mp h
      exact Template.plays_fetch (Row.isQuiet_act _ _)
  | storeAttribute | storeText | storeTitle | storeValue | storeWindowHandle | storeXpathCount =>
      exact Template.plays_capture h
  | answerOnVisiblePrompt =>
      obtain rfl := List.mem_singleton.mp h
      exact Template.plays_flat (.cons (Row.isQuiet_act _ _) (.one (Row.isQuiet_act _ _)))
  | selectWindow =>
      have hswitch : Row.IsQuiet
          [.code "$driver->switchTo()->window($driver->getWindowHandles()[", .integer,
            .code "]);"] := Row.isQuiet rfl rfl (by decide)
      simp only [templates, List.mem_cons, List.not_mem_nil, or_false] at h
      rcases h with rfl | rfl
      · exact Template.plays_statement (Row.isQuiet_act _ _)
      · exact Template.plays_flat (.withDriver fun row hm => List.mem_singleton.mp hm ▸ hswitch)
  | selectFrame =>
      have hswitch : Row.IsQuiet
          [.code "$driver->switchTo()->frame(", .integer, .code ");"] :=
        Row.isQuiet rfl rfl (by decide)
      simp only [templates, List.mem_cons, List.not_mem_nil, or_false] at h
      rcases h with rfl | rfl | rfl
      · exact Template.plays_statement (Row.isQuiet_act _ _)
      · exact Template.plays_statement (Row.isQuiet_act _ _)
      · exact Template.plays_flat (.withDriver fun row hm => List.mem_singleton.mp hm ▸ hswitch)
  | executeScript =>
      simp only [templates, List.mem_cons, List.not_mem_nil, or_false] at h
      rcases h with rfl | rfl
      · exact Template.plays_statement (Row.isQuiet rfl rfl (by decide))
      · exact Template.plays_statement (Row.isQuiet_assign _)
  | store | storeJson =>
      simp only [templates, List.mem_cons, List.not_mem_nil, or_false] at h
      rcases h with rfl | rfl
      · exact Template.plays_flat .nil
      · exact Template.plays_statement (Row.isQuiet_assign _)
  | ifBranch | whileLoop | doLoop =>
      obtain rfl := List.mem_singleton.mp h
      exact Template.plays_flow (by decide) (.opening 0 0)
  | elseIf | elseBranch =>
      obtain rfl := List.mem_singleton.mp h
      exact Template.plays_flow (by decide) .continuing
  | repeatIf | endBlock =>
      obtain rfl := List.mem_singleton.mp h
      exact Template.plays_flow (by decide) .closing
  | times =>
      simp only [templates, List.mem_cons, List.not_mem_nil, or_false] at h
      rcases h with rfl | rfl
      · exact Template.plays_repeated _
      · exact Template.plays_repeated _
  | forEach =>
      obtain rfl := List.mem_singleton.mp h
      exact ⟨by decide, .opening 1 1⟩
  | skip =>
      obtain rfl := List.mem_singleton.mp h
      exact Template.plays_flat .nil
  | executeAsyncScript => simp [templates] at h

/-! ## Fragments -/

/-- Any expression and any name may fill a hole. -/
def Holes.any : Holes :=
  ⟨fun _ => True, fun _ => True, fun _ => True⟩

theorem Holes.any_admits (w : LocatorWriter) : Holes.any.Admits w :=
  ⟨fun _ _ => trivial, fun _ _ => trivial, trivial⟩

theorem Fragment.Follows.plays {H : Holes} {f : Fragment} {t : Template} {r : Role}
    (h : f.Follows H t) (ht : t.Plays r) : f.Plays r := by
  rw [Fragment.Plays, h.before, h.after, h.marks_eq ht.marked]
  exact ht.plays

theorem Fragment.plays_of_quiet {text : String} {first last : Char}
    (hf : text.toList.head? = some first) (hl : text.toList.getLast? = some last)
    (h : first ≠ '/' ∧ first ≠ '}' ∧ last ≠ '{') : (Fragment.statement text).Plays .plain := by
  have hempty : text.isEmpty = false := by
    rw [Bool.eq_false_iff, ne_eq, String.isEmpty_iff, ← String.toList_eq_nil_iff]
    intro hnil
    simp [hnil] at hf
  obtain ⟨hslash, hclose, hopen⟩ := h
  have hmark := Line.mark?_of_ends (l := ⟨0, text⟩) hf hl hslash
  rw [beq_false_of_ne hclose, beq_false_of_ne hopen] at hmark
  have hplays : Role.Plays .plain 0 0 [(⟨0, text⟩ : Line).mark?] := by
    rw [hmark]
    exact .plain rfl
  simpa [Fragment.Plays, Fragment.lines, hempty, Fragment.before, Fragment.after] using hplays

theorem Emission.runAsync_plays (raw name : String) :
    (callOrStore (runAsync (Argument.script raw)) name).render.Plays .plain := by
  cases hne : name.isEmpty with
  | true =>
      have hcall : callOrStore (runAsync (Argument.script raw)) name =
          .statement (runAsync (Argument.script raw) ++ [Piece.code ";"]) := by
        simp only [callOrStore, hne, if_true]
      rw [hcall]
      have hf : (Statement.render (runAsync (Argument.script raw) ++ [Piece.code ";"])).toList.head? =
          some '$' := by
        simp [Statement.toList_render, runAsync, Piece.render]
      have hl : (Statement.render (runAsync (Argument.script raw) ++ [Piece.code ";"])).toList.getLast? =
          some ';' := by
        simp [Statement.toList_render, Piece.render]
      exact Fragment.plays_of_quiet hf hl (by decide)
  | false =>
      have hvalue : Follows .any (runAsync (Argument.script raw)) [.locator, .slots, .code ")"] :=
        .locator trivial (.cons (.slots fun _ hm => Argument.isName_of_mem_argv hm) (.code .nil))
      have hassign := Form.statement_follows (.assign (H := .any) trivial hne hvalue) rfl
      have hplays := hassign.plays (Template.plays_statement (Row.isQuiet_assign _))
      simpa [callOrStore, hne] using hplays

/-- Whatever an action is written as plays the role of the action. -/
theorem Action.compose_plays {a : Action} {setting : Setting} {s : Step} {form : Form}
    (h : a.compose setting s = .ok form) : form.render.Plays a.role := by
  by_cases ha : a = .executeAsyncScript
  · subst ha
    obtain rfl := Except.ok.inj h
    exact Emission.runAsync_plays _ _
  · obtain ⟨t, ht, hf⟩ := compose_follows (Holes.any_admits setting.locators)
      (fun _ _ => trivial) ha h
    exact hf.plays (plays_of_mem_templates ht)

/-! ## Steps -/

/-- What a step does to the blocks around it; a disabled one does nothing. -/
def Step.role (s : Step) : Role :=
  if s.isDisabled then .plain else (Action.ofCommand? s.command).elim .plain Action.role

theorem Window.aligned_snapshot : Aligned 0 snapshot 0 := by
  decide

theorem Window.mark?_await (s : Step) : (await s).mark? = some ⟨0, false, false⟩ := by
  have hwait : Follows .any [.code "$this->waitForWindow($i, ", .int s.windowWait, .code ")"]
      [.code "$this->waitForWindow($i, ", .integer, .code ")"] :=
    .code (.int (.code .nil))
  cases hne : s.windowHandleName.isEmpty with
  | true =>
      have hquiet : Row.IsQuiet [.code "$this->waitForWindow($i, ", .integer, .code ")", .code ";"] :=
        Row.isQuiet rfl rfl (by decide)
      exact Line.mark?_of_follows rfl (by simp [await, hne]) (hwait.append (.code .nil)) (hquiet 0)
  | false =>
      exact Line.mark?_of_follows rfl (by simp [await, hne]) (.assign trivial hne hwait)
        (Row.isQuiet_assign _ 0)

theorem Window.wrap_plays {s : Step} {f : Fragment} (h : f.Plays .plain) :
    (wrap s f).Plays .plain := by
  unfold Fragment.Plays at h
  generalize hb : f.before = before at h
  generalize ha : f.after = after at h
  cases h with
  | plain hmarks =>
      have hawait : Aligned 0 [await s] 0 := .cons (by rw [mark?_await]; rfl) (.nil 0)
      have hlines : Aligned 0 (snapshot ++ f.lines ++ [await s]) 0 :=
        (aligned_snapshot.append hmarks).append hawait
      rw [Fragment.Plays, show (wrap s f).before = 0 from hb, show (wrap s f).after = 0 from ha]
      exact .plain hlines

/-- A step that the built-in registry writes plays the role of its action, if only plain steps open
windows. -/
theorem Registry.emit_builtin_plays {setting : Setting} {s : Step} {f : Fragment}
    (hw : s.role ≠ .plain → s.opensWindow = false) (h : builtin.emit setting s = .ok f) :
    f.Plays s.role := by
  cases hs : s.isDisabled with
  | true =>
      rw [Step.role, hs, if_pos rfl]
      simp only [emit, hs, if_true, Except.ok.injEq] at h
      subst h
      have hcomment : Text.startsWith "//" (disabledComment s) = true :=
        Text.startsWith_oneLine (by decide) (Text.startsWith_append (Text.startsWith_append
          (Text.startsWith_append hs _) _) _)
      have hmarks : ∀ l ∈ (Fragment.statement (disabledComment s)).lines, l.mark? = none := by
        intro l hm
        simp only [Fragment.lines] at hm
        split at hm
        · simp at hm
        · obtain rfl := List.mem_singleton.mp hm
          exact Line.mark?_comment hcomment
      exact .plain (Aligned.of_unmarked hmarks 0)
  | false =>
      obtain ⟨a, form, ha, hform, rfl⟩ := (emit_builtin_eq_ok_iff hs).mp h
      have hrole : s.role = a.role := by simp [Step.role, hs, ha]
      have hplays := Action.compose_plays hform
      rw [hrole] at hw ⊢
      cases ho : s.opensWindow with
      | false => simpa using hplays
      | true =>
          have hplain : a.role = .plain := by
            by_contra hne
            simp [hw hne] at ho
          rw [hplain] at hplays ⊢
          simpa using Window.wrap_plays hplays

end CestWriter
