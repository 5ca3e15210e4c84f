import CestWriter.Proofs.Emission.Registry
import CestWriter.Proofs.Number.Numeral

/-! # No recorded text escapes into the code

Every line that is written for a step ends outside of its literals. What stands outside of them is
a template of the action, its holes filled with nothing but name characters and integers. -/

namespace CestWriter

open Php
open Text (isNameChar)

/-! ## What may stand in the holes of a template -/

/-- The outline of a locator: a call of a factory method with one expression. -/
def IsLocator (out : List Char) : Prop :=
  ∃ method ∈ ["id", "name", "cssSelector", "xpath", "linkText", "partialLinkText"],
    ∃ e, IsExpression e ∧
      out = "WebDriverBy::".toList ++ method.toList ++ "(".toList ++ e ++ ")".toList

/-- The outline of an option selection. -/
def IsOption (out : List Char) : Prop :=
  ∃ e, IsExpression e ∧ out = "['' => ".toList ++ e ++ "]".toList

/-- The outline of an argument of a key sequence. -/
def IsKeyArgument (out : List Char) : Prop :=
  IsOperand out ∨ ∃ name : List Char, (∀ c ∈ name, isNameChar c = true) ∧
    out = "WebDriverKeys::".toList ++ name

/-- The outline of the variables of a script: nothing, or an array of slots. -/
def IsSlotArray (out : List Char) : Prop :=
  out = [] ∨ ∃ slots, Joined [','] (· = slotOutline) slots ∧
    out = [',', ' ', '['] ++ slots ++ [']']

/-- The outlines that a part of a template may have. -/
def Part.Fits : Part → List Char → Prop
  | .code text, out => out = text.toList
  | .literal, out => out = ['\'', '\'']
  | .slot, out => out = slotOutline
  | .expression, out => IsExpression out
  | .locator, out => IsLocator out
  | .option, out => IsOption out
  | .integer, out => Number.IsInteger out
  | .word, out => ∀ c ∈ out, isNameChar c = true
  | .slots, out => IsSlotArray out
  | .keys, out => Joined [',', ' '] IsKeyArgument out

/-- Outlines of the parts of a row, one after another. -/
inductive Row.Fits : Row → List Char → Prop
  | nil : Fits [] []
  | cons {p row out rest} (h : p.Fits out) : Fits row rest → Fits (p :: row) (out ++ rest)

/-! ## Pieces -/

/-- What is known of locators, options and names when a line is read back. -/
def Holes.read : Holes where
  locator e := ∃ out, Outlined e.toList out ∧ IsLocator out
  option e := ∃ out, Outlined e.toList out ∧ IsOption out
  name name := ∀ c ∈ name.toList, isNameChar c = true

theorem Php.Outlined.slot_of_names {name : String} (h : ∀ c ∈ name.toList, isNameChar c = true) :
    Outlined (Php.slot name).toList slotOutline := by
  have hslot := Outlined.slot name.toList
  rwa [Operand.text, escapeChars_name h, show Operand.slotFront ++ name.toList ++ ['\'', ']'] =
    (Php.slot name).toList by simp [Php.slot, Operand.slotFront]] at hslot

theorem Php.Outlined.literal_text (value : String) :
    Outlined (Php.literal value).toList ['\'', '\''] := by
  have hliteral := Outlined.literal value.toList
  rwa [show (Operand.literal value.toList).text = (Php.literal value).toList by
    simp [Php.literal, Php.escape, Operand.text]] at hliteral

theorem Php.Outlined.piece {piece : Piece} {out : List Char}
    (h : Outlined piece.render.toList out) : Outlined (Statement.render [piece]).toList out := by
  simpa [Statement.toList_render] using h

theorem isNameChar_quote : isNameChar '\'' = false := by decide

theorem quote_not_mem_names {name : List Char} (h : ∀ c ∈ name, isNameChar c = true) :
    '\'' ∉ name := by
  intro hm
  have := h _ hm
  rw [isNameChar_quote] at this
  contradiction

theorem quote_not_mem_int (n : Int) : '\'' ∉ (toString n).toList := by
  intro hm
  have hdigit : ∀ ds, Number.IsNatural ds → '\'' ∉ ds := fun ds hds hm => by
    have := hds.isDigit _ hm
    contradiction
  rcases Number.isInteger_toString n with h | ⟨ds, he, h, -⟩
  · exact hdigit _ h hm
  · rw [he, List.mem_cons] at hm
    rcases hm with hm | hm
    · contradiction
    · exact hdigit _ h hm

/-! ## Parts -/

/-- Fixed code has no literal of its own. -/
def Part.isPlain : Part → Bool
  | .code text => !text.toList.contains '\''
  | _ => true

theorem map_intersperse {α β : Type} (f : α → β) (sep : α) (xs : List α) :
    (xs.intersperse sep).map f = (xs.map f).intersperse (f sep) := by
  induction xs with
  | nil => rfl
  | cons x xs ih => cases xs <;> simp_all

theorem outlined_scriptArguments {argv : List String} (h : ∀ name ∈ argv, IsName name.toList) :
    ∃ out, Outlined (Statement.render (Emission.scriptArguments argv)).toList out ∧
      IsSlotArray out := by
  cases hargv : argv.isEmpty with
  | true =>
      refine ⟨[], ?_, .inl rfl⟩
      simpa [Emission.scriptArguments, hargv, Statement.render] using Outlined.nil
  | false =>
      have hne : argv.map (fun name => (Php.slot name).toList) ≠ [] := by
        simpa [List.isEmpty_eq_false_iff] using hargv
      obtain ⟨slots, hslots, hjoined⟩ : ∃ out,
          Outlined ((argv.map fun name => (Php.slot name).toList).intersperse [',']).flatten out ∧
            Joined [','] (· = slotOutline) out := by
        apply outlined_intersperse (by decide) hne
        intro text hm
        obtain ⟨name, hname, rfl⟩ := List.mem_map.mp hm
        exact ⟨_, .slot_of_names (h name hname).2, rfl⟩
      have hopen : Outlined [',', ' ', '['] [',', ' ', '['] := .plain (by decide)
      have hclose : Outlined [']'] [']'] := .plain (by decide)
      refine ⟨_, ?_, .inr ⟨slots, hjoined, rfl⟩⟩
      have htext : (Statement.render (Emission.scriptArguments argv)).toList = [',', ' ', '['] ++
          ((argv.map fun name => (Php.slot name).toList).intersperse [',']).flatten ++ [']'] := by
        simp [Emission.scriptArguments, hargv, Statement.toList_render, Piece.render,
          List.flatMap_def, map_intersperse, Function.comp_def]
      rw [htext]
      exact (hopen.append hslots).append hclose

theorem Php.Statement.toList_render_commas (args : List Statement) :
    (Statement.render (Statement.commas args)).toList =
      ((args.map fun s => (Statement.render s).toList).intersperse [',', ' ']).flatten := by
  induction args with
  | nil => rfl
  | cons s args ih =>
      cases args with
      | nil => simp [Statement.commas]
      | cons t rest =>
          simp only [Statement.commas, List.intersperse_cons_cons, List.flatten_cons,
            toList_render_append, List.map_cons] at ih ⊢
          rw [ih]
          rfl

theorem outlined_keyArgument {part : KeyPart} {raw : String} (h : part ∈ Argument.keys raw) :
    ∃ out, Outlined (Statement.render (Emission.keyArgument part)).toList out ∧
      IsKeyArgument out := by
  match part with
  | .text value => exact ⟨_, .piece (.literal_text value), .inl (.inl rfl)⟩
  | .variable name =>
      have hname := (Argument.isName_of_variable_mem_keys h).2
      exact ⟨_, .piece (.slot_of_names hname), .inl (.inr rfl)⟩
  | .key name =>
      have hname := Argument.isNameChar_of_key_mem_keys h
      refine ⟨_, ?_, .inr ⟨name.toList, hname, rfl⟩⟩
      have hlead : Outlined "WebDriverKeys::".toList _ := .plain (by decide)
      simpa [Emission.keyArgument, Statement.toList_render, Piece.render] using
        hlead.append (.plain (quote_not_mem_names hname))

theorem outlined_keyArguments (raw : String) :
    ∃ out, Outlined (Statement.render (Emission.keyArguments (Argument.keys raw))).toList out ∧
      Joined [',', ' '] IsKeyArgument out := by
  cases hkeys : (Argument.keys raw).isEmpty with
  | true =>
      refine ⟨_, ?_, .one (.inl (.inl rfl))⟩
      have hempty : Outlined (Statement.render [.literal ""]).toList ['\'', '\''] :=
        .piece (.literal_text "")
      simpa [Emission.keyArguments, hkeys] using hempty
  | false =>
      have hne : (Argument.keys raw).map (fun part =>
          (Statement.render (Emission.keyArgument part)).toList) ≠ [] := by
        simpa [List.isEmpty_eq_false_iff] using hkeys
      simp only [Emission.keyArguments, hkeys, Bool.false_eq_true, if_false,
        Statement.toList_render_commas, List.map_map, Function.comp_def]
      apply outlined_intersperse (by decide) hne
      intro text hm
      obtain ⟨part, hpart, rfl⟩ := List.mem_map.mp hm
      exact outlined_keyArgument hpart

/-! ## Rows -/

theorem Part.Matches.outlined {p : Part} {s : Statement} (h : p.Matches .read s)
    (hp : p.isPlain = true) : ∃ out, Outlined (Statement.render s).toList out ∧ p.Fits out := by
  cases h with
  | @code text =>
      have hplain : '\'' ∉ text.toList := by simpa [isPlain] using hp
      exact ⟨_, .piece (.plain hplain), rfl⟩
  | literal => exact ⟨_, .piece (.literal_text _), rfl⟩
  | slot hn => exact ⟨_, .piece (.slot_of_names hn), rfl⟩
  | expression hq =>
      obtain ⟨out, ho, hout⟩ := hq.quoted
      exact ⟨out, .piece ho, hout⟩
  | locator hl =>
      obtain ⟨out, ho, hout⟩ := hl
      exact ⟨out, .piece ho, hout⟩
  | option ho =>
      obtain ⟨out, ho, hout⟩ := ho
      exact ⟨out, .piece ho, hout⟩
  | @integer n => exact ⟨_, .piece (.plain (quote_not_mem_int n)), Number.isInteger_toString n⟩
  | word hw => exact ⟨_, .piece (.plain (quote_not_mem_names hw)), hw⟩
  | slots hnames => exact outlined_scriptArguments hnames
  | keys => exact outlined_keyArguments _

theorem Follows.outlined {s : Statement} {row : Row} (h : Follows .read s row)
    (hrow : ∀ p ∈ row, p.isPlain = true) :
    ∃ out, Outlined (Statement.render s).toList out ∧ row.Fits out := by
  induction h with
  | nil => exact ⟨[], by simpa [Statement.render] using Outlined.nil, .nil⟩
  | cons hp _ ih =>
      obtain ⟨out, ho, hout⟩ := hp.outlined (hrow _ (by simp))
      obtain ⟨rest, hr, hrest⟩ := ih fun p hm => hrow p (by simp [hm])
      exact ⟨_, by simpa only [Statement.toList_render_append] using ho.append hr, .cons hout hrest⟩

/-! ## Locators -/

theorem Locator.search_outlined {method p : String} (hp : Prepared p.toList)
    (hm : method ∈ ["id", "name", "cssSelector", "xpath", "linkText", "partialLinkText"]) :
    ∃ out, Outlined (search method p).toList out ∧ IsLocator out := by
  obtain ⟨e, he, hexpr⟩ := hp.quoted
  have hmethod : Outlined method.toList method.toList := by
    apply Outlined.plain
    revert method
    decide
  have hlead : Outlined "WebDriverBy::".toList "WebDriverBy::".toList := .plain (by decide)
  have hopen : Outlined "(".toList "(".toList := .plain (by decide)
  have hclose : Outlined ")".toList ")".toList := .plain (by decide)
  refine ⟨_, ?_, method, hm, e, hexpr, rfl⟩
  change Outlined ("WebDriverBy::" ++ method ++ "(" ++ quote p ++ ")").toList _
  simp only [String.toList_append]
  exact (((hlead.append hmethod).append hopen).append he).append hclose

theorem Locator.method?_mem {strategy method : String} (h : method? strategy = some method) :
    method ∈ ["id", "name", "cssSelector", "xpath", "linkText", "partialLinkText"] := by
  unfold method? at h
  split at h <;> simp_all

theorem Locator.element_outlined {p e : String} (hp : Prepared p.toList) (h : element p = .ok e) :
    ∃ out, Outlined e.toList out ∧ IsLocator out := by
  unfold element at h
  split at h
  · obtain rfl := Except.ok.inj h
    exact search_outlined hp (by simp)
  · split at h
    · simp at h
    · rename_i strategy value hcut
      split at h
      · simp at h
      · rename_i method hmethod
        obtain rfl := Except.ok.inj h
        rw [Text.eq_of_cut? hcut] at hp
        have hvalue := (hp.cut (Prepared.isFree (by decide) (by decide)) rfl).2
        exact search_outlined hvalue (method?_mem hmethod)

theorem Locator.pick_outlined {key p : String} (hp : Prepared p.toList)
    (hk : key = "text" ∨ key = "value") : ∃ out, Outlined (pick key p).toList out ∧ IsOption out := by
  obtain ⟨e, he, hexpr⟩ := hp.quoted
  have hkey : Outlined ("['" ++ key ++ "' => ").toList "['' => ".toList := by
    rcases hk with rfl | rfl <;> exact ⟨by decide, by decide⟩
  have hclose : Outlined "]".toList "]".toList := .plain (by decide)
  refine ⟨_, ?_, e, hexpr, rfl⟩
  simp only [pick, String.toList_append] at hkey ⊢
  exact (hkey.append he).append hclose

theorem Locator.option_outlined {p e : String} (hp : Prepared p.toList) (h : option p = .ok e) :
    ∃ out, Outlined e.toList out ∧ IsOption out := by
  unfold option at h
  have hcut : ∀ {key value}, Text.cut? '=' p = some (key, value) → Prepared value.toList := by
    intro key value hc
    rw [Text.eq_of_cut? hc] at hp
    exact (hp.cut (Prepared.isFree (by decide) (by decide)) rfl).2
  split at h
  · rename_i hc
    obtain rfl := Except.ok.inj h
    exact pick_outlined (hcut hc) (.inl rfl)
  · rename_i hc
    obtain rfl := Except.ok.inj h
    exact pick_outlined (hcut hc) (.inr rfl)
  · simp at h
  · simp at h
  · obtain rfl := Except.ok.inj h
    exact pick_outlined hp (.inl rfl)

theorem Holes.read_admits : Holes.read.Admits .webDriver where
  locator := Locator.element_outlined
  option := Locator.option_outlined
  body := by
    have hbody : Outlined "WebDriverBy::cssSelector('body')".toList
        "WebDriverBy::cssSelector('')".toList := ⟨by decide, by decide⟩
    exact ⟨_, hbody, "cssSelector", by decide, ['\'', '\''], .one (.inl rfl), by decide⟩

/-! ## Fragments -/

/-- A line stands at the level of a row, ends outside of its literals, and has an outline that fits
the row. -/
def Line.Fits (line : Line) (row : Nat × Row) : Prop :=
  line.level = row.1 ∧ Mode.code.after line.statement.toList = .code ∧
    row.2.Fits (outline .code line.statement.toList)

/-- No fixed code of a template has a quote in it. -/
def Template.isPlain (t : Template) : Bool :=
  t.rows.all fun row => row.2.all Part.isPlain

/-- Looking at the characters of a literal is much faster than at its encoding. -/
theorem Part.isPlain_code {cs : List Char} (h : cs.contains '\'' = false) :
    (Part.code (String.ofList cs)).isPlain = true := by
  simpa [isPlain] using h

theorem Action.isPlain_of_mem_templates {a : Action} {t : Template} (h : t ∈ a.templates) :
    t.isPlain = true := by
  cases a
  all_goals
    simp only [templates, Template.capture, List.mem_cons, List.not_mem_nil, or_false] at h
    try rcases h with rfl | rfl | rfl
  all_goals
    simp only [Template.isPlain, Template.nothing, Template.flat, Template.statement, Template.act,
      Template.flow, Template.mouse, Template.editable, Template.driverWait, Template.repeated,
      Row.commas, Row.act, Row.assign, Row.script, Row.findElement, Row.withDriver,
      Row.fetchElement, List.intersperse, List.flatten_cons, List.flatten_nil, List.map_cons,
      List.map_nil, List.cons_append, List.nil_append, List.append_nil, List.all_cons,
      List.all_nil, Bool.and_true, Bool.and_eq_true]
    repeat' apply And.intro
  all_goals first | exact Part.isPlain_code rfl | rfl

theorem Template.isPlain_of_mem_windowed {t u : Template} (ht : t.isPlain = true)
    (hu : u ∈ t.windowed) : u.isPlain = true := by
  simp only [windowed, List.mem_cons, List.not_mem_nil, or_false] at hu
  simp only [isPlain] at ht ⊢
  rcases hu with rfl | rfl
  · rw [List.all_append, List.all_append, ht]
    decide
  · rw [List.all_append, List.all_append, ht]
    decide

theorem Action.isPlain_of_mem_stepTemplates {a : Action} {s : Step} {t : Template}
    (h : t ∈ a.stepTemplates s) : t.isPlain = true := by
  unfold stepTemplates at h
  split at h
  · obtain ⟨u, hu, ht⟩ := List.mem_flatMap.mp h
    exact Template.isPlain_of_mem_windowed (isPlain_of_mem_templates hu) ht
  · exact isPlain_of_mem_templates h

theorem Fragment.Follows.fits {f : Fragment} {t : Template} (h : f.Follows .read t)
    (ht : t.isPlain = true) : List.Forall₂ Line.Fits f.lines t.rows := by
  have hrows : ∀ row ∈ t.rows, ∀ p ∈ row.2, p.isPlain = true := by
    simpa [Template.isPlain] using ht
  refine (List.forall₂_iff_zip.mpr ⟨h.lines.length_eq, ?_⟩)
  intro line row hm
  obtain ⟨hlevel, s, hs, hfollows⟩ := (List.forall₂_iff_zip.mp h.lines).2 hm
  obtain ⟨out, ho, hout⟩ := hfollows.outlined (hrows row (List.of_mem_zip hm).2)
  rw [← hs] at ho
  exact ⟨hlevel, ho.closed, ho.outline_eq ▸ hout⟩

theorem Action.ofCommand?_eq_executeAsyncScript {command : String}
    (h : ofCommand? command = some .executeAsyncScript) : command = "executeAsyncScript" := by
  have hall : ∀ entry ∈ table, entry.2 = .executeAsyncScript → entry.1 = "executeAsyncScript" := by
    decide
  exact hall _ (mem_table_of_ofCommand? h) rfl

/-- Every line of an enabled step fits a template of its action, whatever the target, the value and
the base address are. The exception is a script that reports back, whose text is code; arguments
that are taken as names of variables must have no other characters than names have. -/
theorem Registry.emit_builtin_fits {baseUrl : String} {s : Step} {f : Fragment}
    (hs : s.isDisabled = false) (hasync : s.command ≠ "executeAsyncScript")
    (hn : ∀ name ∈ s.names, ∀ c ∈ name.toList, isNameChar c = true)
    (h : builtin.emit ⟨baseUrl, .webDriver⟩ s = .ok f) :
    ∃ a, Action.ofCommand? s.command = some a ∧ ∃ t ∈ a.stepTemplates s,
      f.before = t.before ∧ f.after = t.after ∧ List.Forall₂ Line.Fits f.lines t.rows := by
  have hne : Action.ofCommand? s.command ≠ some .executeAsyncScript := fun ha =>
    hasync (Action.ofCommand?_eq_executeAsyncScript ha)
  have hhandles : ∀ c ∈ "windowHandles".toList, isNameChar c = true :=
    List.all_eq_true.mp (by decide)
  obtain ⟨a, ha, t, ht, hf⟩ := emit_builtin_follows Holes.read_admits hhandles hs hne hn h
  exact ⟨a, ha, t, ht, hf.before, hf.after, hf.fits (Action.isPlain_of_mem_stepTemplates ht)⟩

/-- A quote, a backslash and a reference in a text that is stored under a proper name. -/
theorem Registry.emit_builtin_fits_store :
    let s := { Step.blank with command := "store", target := "it's \\ ${x}", value := "y" }
    ∃ f, builtin.emit ⟨"", .webDriver⟩ s = .ok f ∧
      ∃ a, Action.ofCommand? s.command = some a ∧ ∃ t ∈ a.stepTemplates s,
        f.before = t.before ∧ f.after = t.after ∧ List.Forall₂ Line.Fits f.lines t.rows := by
  intro s
  have hs : s.isDisabled = false := by decide
  have ha : Action.ofCommand? s.command = some .store := by decide +kernel
  have hn : ∀ name ∈ s.names, ∀ c ∈ name.toList, isNameChar c = true := by
    intro name hm
    rw [Step.names, ha] at hm
    obtain rfl : name = "y" := by simpa [s, Action.rawNames, Step.blank] using hm
    exact List.all_eq_true.mp (by decide)
  have h : builtin.emit ⟨"", .webDriver⟩ s = .ok _ :=
    (emit_builtin_eq_ok_iff hs).mpr ⟨_, _, ha, rfl, rfl⟩
  exact ⟨_, h, emit_builtin_fits hs (by decide) hn h⟩

end CestWriter
