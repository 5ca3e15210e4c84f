import CestWriter.Proofs.Emission.Registry
import CestWriter.Proofs.Number.Numeral
import CestWriter.Proofs.Recording.Cutting
import Mathlib.Algebra.Order.Ring.Int

/-! # What selectors are written as

Locators, options, attributes and windows are found by cutting prepared text. What comes out is what
the recorded text asks for: each rule reads the text as it was recorded, and nothing of its
preparation. -/

namespace CestWriter

open Php (Piece Statement)

/-! ## Locators -/

namespace Locator

variable {raw out : String}

/-- The strategies of recorded locators and the methods that search by them. -/
def strategies : List (String × String) :=
  [("id", "id"), ("name", "name"), ("css", "cssSelector"), ("xpath", "xpath"),
    ("link", "linkText"), ("linkText", "linkText"), ("partialLinkText", "partialLinkText")]

/-- A recorded locator asks for a method and for what it is to search. -/
inductive Asks : String → String → String → Prop
  | path (rest : String) : Asks ("//" ++ rest) "xpath" ("//" ++ rest)
  | strategy {key method : String} (h : (key, method) ∈ strategies) (sought : String) :
    Asks (key ++ "=" ++ sought) method sought

theorem search_eq (method prepared : String) :
    search method prepared = "WebDriverBy::" ++ method ++ "(" ++ Php.quote prepared ++ ")" :=
  rfl

theorem pick_eq (key prepared : String) :
    pick key prepared = "['" ++ key ++ "' => " ++ Php.quote prepared ++ "]" :=
  rfl

theorem webDriver_locator : LocatorWriter.webDriver.locator = element :=
  rfl

theorem method?_eq_some_iff {key method : String} :
    method? key = some method ↔ (key, method) ∈ strategies := by
  unfold method?
  split <;> simp_all [strategies, eq_comm]

/-- The name of a strategy stands for itself and holds no equals sign. -/
theorem plain_of_mem_strategies : ∀ entry ∈ strategies, Plain entry.1 ∧ '=' ∉ entry.1.toList := by
  decide

theorem method?_text (key : String) : method? (Argument.text key) = method? key := by
  refine Option.ext fun method => ?_
  rw [method?_eq_some_iff, method?_eq_some_iff]
  have hplain {key : String} (h : (key, method) ∈ strategies) := (plain_of_mem_strategies _ h).1
  constructor
  · intro h
    rwa [(hplain h).text_eq_iff.mp rfl]
  · intro h
    rwa [(hplain h).text_eq_iff.mpr rfl]

theorem not_startsWith_path {key method : String} (h : (key, method) ∈ strategies) (sought : String) :
    Text.startsWith "//" (key ++ "=" ++ sought) = false := by
  simp only [strategies, List.mem_cons, Prod.mk.injEq, List.not_mem_nil, or_false] at h
  rcases h with ⟨rfl, -⟩ | ⟨rfl, -⟩ | ⟨rfl, -⟩ | ⟨rfl, -⟩ | ⟨rfl, -⟩ | ⟨rfl, -⟩ | ⟨rfl, -⟩ <;>
    simp [Text.startsWith, List.isPrefixOf]

theorem asks_iff_of_path (h : Text.startsWith "//" raw = true) {method sought : String} :
    Asks raw method sought ↔ method = "xpath" ∧ sought = raw := by
  constructor
  · intro hasks
    cases hasks with
    | path rest => exact ⟨rfl, rfl⟩
    | strategy hm sought => simp [not_startsWith_path hm] at h
  · rintro ⟨rfl, rfl⟩
    obtain ⟨rest, rfl⟩ := Text.startsWith_eq_true_iff.mp h
    exact .path rest

theorem asks_iff_of_not_path (h : Text.startsWith "//" raw = false) {method sought : String} :
    Asks raw method sought ↔
      ∃ key, Text.cut? '=' raw = some (key, sought) ∧ (key, method) ∈ strategies := by
  constructor
  · intro hasks
    cases hasks with
    | path rest => simp [Text.startsWith_append (Text.startsWith_self "//")] at h
    | @strategy key _ hm sought =>
        refine ⟨key, Text.cut?_eq_some_iff.mpr ⟨(plain_of_mem_strategies _ hm).2, ?_⟩, hm⟩
        simp
  · rintro ⟨key, hcut, hm⟩
    have hraw : raw = key ++ "=" ++ sought := by
      rw [← String.toList_inj, (Text.cut?_eq_some_iff.mp hcut).2]
      simp
    rw [hraw]
    exact .strategy hm sought

/-- A prepared locator is accepted if and only if the recorded one asks for a search, and the search
is for the prepared part. -/
theorem element_text_eq_ok_iff : element (Argument.text raw) = .ok out ↔
    ∃ method sought, Asks raw method sought ∧ out = search method (Argument.text sought) := by
  rw [element, Plain.startsWith_text (by decide), separator_equals.cut?_text]
  cases hpath : Text.startsWith "//" raw with
  | true =>
      rw [if_pos rfl]
      constructor
      · intro h
        exact ⟨_, _, (asks_iff_of_path hpath).mpr ⟨rfl, rfl⟩, (Except.ok.inj h).symm⟩
      · rintro ⟨method, sought, hasks, rfl⟩
        obtain ⟨rfl, rfl⟩ := (asks_iff_of_path hpath).mp hasks
        rfl
  | false =>
      rw [if_neg (by decide)]
      simp only [asks_iff_of_not_path hpath, ← method?_eq_some_iff]
      cases hcut : Text.cut? '=' raw with
      | none => simp
      | some parts =>
          obtain ⟨key, sought⟩ := parts
          simp only [Option.map_some, method?_text, Option.some.injEq, Prod.mk.injEq]
          cases hmethod : method? key with
          | none => simp [hmethod]
          | some method => simp [hmethod, eq_comm]

/-! ## Options -/

/-- The kinds of recorded selectors that can be written, and the keys of the array for them. -/
def kinds : List (String × String) :=
  [("label", "text"), ("value", "value")]

/-- The kinds that cannot be written. -/
def refusedKinds : List String :=
  ["id", "index"]

/-- A recorded selector chooses by a key of the array and by what stands under it. A selector of no
known kind is a label as a whole. -/
inductive Chooses : String → String → String → Prop
  | kind {kind key : String} (h : (kind, key) ∈ kinds) (chosen : String) :
    Chooses (kind ++ "=" ++ chosen) key chosen
  | whole {raw : String} (h : ∀ kind ∈ kinds.map (·.1) ++ refusedKinds, ∀ rest,
      raw ≠ kind ++ "=" ++ rest) : Chooses raw "text" raw

/-- A selector of a kind that cannot be written. -/
def IsRefused (raw : String) : Prop :=
  ∃ kind ∈ refusedKinds, ∃ rest, raw = kind ++ "=" ++ rest

/-- The name of a kind stands for itself and holds no equals sign. -/
theorem plain_of_mem_kinds : ∀ kind ∈ kinds.map (·.1) ++ refusedKinds,
    Plain (kind ++ "=") ∧ '=' ∉ kind.toList := by
  decide

theorem cut?_text_of_mem_kinds {kind : String} (h : kind ∈ kinds.map (·.1) ++ refusedKinds)
    (chosen : String) :
    Text.cut? '=' (Argument.text (kind ++ "=" ++ chosen)) = some (kind, Argument.text chosen) := by
  obtain ⟨hplain, hequals⟩ := plain_of_mem_kinds kind h
  rw [hplain.text_append]
  exact Text.cut?_eq_some_iff.mpr ⟨hequals, by simp⟩

/-- A prepared selector is written for what the recorded one chooses. -/
theorem option_text_of_chooses {key chosen : String} (h : Chooses raw key chosen) :
    option (Argument.text raw) = .ok (pick key (Argument.text chosen)) := by
  cases h with
  | @kind kind _ h chosen =>
      have hmem : kind ∈ kinds.map (·.1) ++ refusedKinds :=
        List.mem_append_left _ (List.mem_map_of_mem h)
      rw [option, cut?_text_of_mem_kinds hmem]
      simp only [kinds, List.mem_cons, Prod.mk.injEq, List.not_mem_nil, or_false] at h
      rcases h with ⟨rfl, rfl⟩ | ⟨rfl, rfl⟩ <;> rfl
  | whole h =>
      have hkind : ∀ kind ∈ kinds.map (·.1) ++ refusedKinds, ∀ chosen,
          Text.cut? '=' (Argument.text raw) ≠ some (kind, chosen) := by
        intro kind hk chosen hcut
        have hlead : Argument.text raw = (kind ++ "=") ++ chosen := by
          rw [← String.toList_inj, (Text.cut?_eq_some_iff.mp hcut).2]
          simp
        obtain ⟨rest, hrest, -⟩ := (plain_of_mem_kinds kind hk).1.text_eq_append_iff.mp hlead
        exact h kind hk rest hrest
      rw [option]
      split
      · next hcut => exact absurd hcut (hkind "label" (by decide) _)
      · next hcut => exact absurd hcut (hkind "value" (by decide) _)
      · next hcut => exact absurd hcut (hkind "id" (by decide) _)
      · next hcut => exact absurd hcut (hkind "index" (by decide) _)
      · rfl

theorem exists_chooses (h : ¬ IsRefused raw) : ∃ key chosen, Chooses raw key chosen := by
  by_cases hkind : ∃ entry ∈ kinds, ∃ chosen, raw = entry.1 ++ "=" ++ chosen
  · obtain ⟨entry, hentry, chosen, rfl⟩ := hkind
    exact ⟨_, _, .kind hentry chosen⟩
  · refine ⟨_, _, .whole fun kind hk rest hraw => ?_⟩
    rcases List.mem_append.mp hk with hk | hk
    · obtain ⟨entry, hentry, rfl⟩ := List.mem_map.mp hk
      exact hkind ⟨entry, hentry, rest, hraw⟩
    · exact h ⟨kind, hk, rest, hraw⟩

theorem option_text_fails_iff :
    (∃ fault, option (Argument.text raw) = .error fault) ↔ IsRefused raw := by
  constructor
  · rintro ⟨fault, hfault⟩
    by_contra hrefused
    obtain ⟨key, chosen, hchooses⟩ := exists_chooses hrefused
    rw [option_text_of_chooses hchooses] at hfault
    cases hfault
  · rintro ⟨kind, hk, rest, rfl⟩
    rw [option, cut?_text_of_mem_kinds (List.mem_append_right _ hk)]
    simp only [refusedKinds, List.mem_cons, List.not_mem_nil, or_false] at hk
    rcases hk with rfl | rfl <;> exact ⟨_, rfl⟩

end Locator

namespace Emission

variable {raw : String}

/-! ## Attributes -/

/-- A recorded attribute asks for the element that a locator before the last at sign asks for, and for
the attribute named after it. -/
inductive AsksAttribute : String → String → String → String → Prop
  | intro {locator method sought key : String} (h : Locator.Asks locator method sought)
    (hlast : '@' ∉ key.toList) : AsksAttribute (locator ++ "@" ++ key) method sought key

/-- The form of a stored attribute. -/
def attributeForm (method sought key name : String) : Form :=
  .capture "attribute" [.code "$driver->findElement(",
    .expression (Locator.search method (Argument.text sought)), .code ")->getAttribute(",
    .quoted (Argument.text key), .code ")"] name

theorem mem_lines_attributeForm (method sought key name : String) :
    ⟨1, "$attribute = $driver->findElement(WebDriverBy::" ++ method ++ "(" ++
      Php.quote (Argument.text sought) ++ "))->getAttribute(" ++ Php.quote (Argument.text key) ++
      ");"⟩ ∈ (attributeForm method sought key name).render.lines := by
  have hfront : "$attribute = $driver->findElement(WebDriverBy::" =
      "$" ++ ("attribute" ++ (" = " ++ ("$driver->findElement(" ++ "WebDriverBy::"))) := rfl
  have hmid : "))->getAttribute(" = ")" ++ ")->getAttribute(" := rfl
  have hback : ");" = ")" ++ ";" := rfl
  let line : Statement := [.code "$", .code "attribute", .code " = ",
    .code "$driver->findElement(", .expression (Locator.search method (Argument.text sought)),
    .code ")->getAttribute(", .quoted (Argument.text key), .code ")", .code ";"]
  have hline : ⟨1, line.render⟩ ∈ (attributeForm method sought key name).render.lines := by
    apply Form.mem_lines_block
    simp [Form.withDriver, line]
  simpa only [line, Statement.render_cons, Statement.render_nil, Piece.render, Locator.search_eq,
    hfront, hmid, hback, String.append_assoc, String.append_empty] using hline

theorem storeAttribute_text_eq_ok_iff {name : String} {form : Form} :
    storeAttribute .webDriver (Argument.text raw) name = .ok form ↔
      ∃ method sought key, AsksAttribute raw method sought key ∧
        form = attributeForm method sought key name := by
  rw [storeAttribute, separator_at.cutLast?_text]
  constructor
  · intro h
    cases hcut : Text.cutLast? '@' raw with
    | none => simp [hcut, throw, throwThe, MonadExceptOf.throw] at h
    | some parts =>
        obtain ⟨locator, key⟩ := parts
        obtain ⟨hlast, hraw⟩ := Text.cutLast?_eq_some_iff.mp hcut
        simp only [hcut, Option.map_some, Locator.webDriver_locator] at h
        obtain ⟨element, helement, hform⟩ := bind_eq_ok.mp h
        obtain ⟨method, sought, hasks, rfl⟩ := Locator.element_text_eq_ok_iff.mp helement
        have hparts : raw = locator ++ "@" ++ key := by
          rw [← String.toList_inj, hraw]
          simp
        exact ⟨method, sought, key, hparts ▸ .intro hasks hlast, (Except.ok.inj hform).symm⟩
  · rintro ⟨method, sought, key, @⟨locator, _, _, _, hasks, hlast⟩, rfl⟩
    have hcut : Text.cutLast? '@' (locator ++ "@" ++ key) = some (locator, key) :=
      Text.cutLast?_eq_some_iff.mpr ⟨hlast, by simp⟩
    simp only [hcut, Option.map_some, Locator.webDriver_locator]
    exact bind_eq_ok.mpr ⟨_, Locator.element_text_eq_ok_iff.mpr ⟨_, _, hasks, rfl⟩, rfl⟩

/-! ## Windows -/

/-- The window that a step switches to. -/
inductive WindowChoice
  /-- The one of this handle or name. -/
  | called (name : String)
  /-- The one of this place in the order of opening. -/
  | opened (n : Nat)

/-- A recorded window asks for a handle or a name, or for a place: the first one, or one whose number
is below `limit`. -/
inductive AsksWindow (limit : Nat) : String → WindowChoice → Prop
  | handle (name : String) : AsksWindow limit ("handle=" ++ name) (.called name)
  | name (name : String) : AsksWindow limit ("name=" ++ name) (.called name)
  | first : AsksWindow limit "win_ser_local" (.opened 0)
  | serial {digits : String} {n : Nat} (h : Number.IsWhole digits.toList n) (hlimit : n < limit) :
    AsksWindow limit ("win_ser_" ++ digits) (.opened n)

def windowForm : WindowChoice → Form
  | .called name => .act "switchToWindow" [[.quoted (Argument.text name)]]
  | .opened n => nthWindow n

theorem mem_lines_switch (name : String) :
    ⟨0, "$i->switchToWindow(" ++ Php.quote (Argument.text name) ++ ");"⟩ ∈
      (windowForm (.called name)).render.lines := by
  have hfront : "$i->switchToWindow(" = "$i->" ++ ("switchToWindow" ++ "(") := rfl
  have hline : (Statement.act "switchToWindow" [[.quoted (Argument.text name)]]).render =
      "$i->switchToWindow(" ++ Php.quote (Argument.text name) ++ ");" := by
    simp only [Statement.act, Statement.commas, List.intersperse_singleton, List.flatten_cons,
      List.flatten_nil, List.cons_append, List.nil_append, List.append_nil, Statement.render_cons,
      Statement.render_nil, Piece.render, hfront, String.append_assoc, String.append_empty]
  rw [← hline]
  apply Form.mem_lines_statement
  rw [hline]
  simp [String.isEmpty_eq_false_iff]

theorem mem_lines_nthWindow (n : Nat) :
    ⟨1, "$driver->switchTo()->window($driver->getWindowHandles()[" ++ toString n ++ "]);"⟩ ∈
      (windowForm (.opened n)).render.lines := by
  let line : Statement :=
    [.code "$driver->switchTo()->window($driver->getWindowHandles()[", .int n, .code "]);"]
  have hline : ⟨1, line.render⟩ ∈ (windowForm (.opened n)).render.lines := by
    apply Form.mem_lines_block
    simp [Form.withDriver, line]
  have hn : toString (n : Int) = toString n := rfl
  simpa only [line, Statement.render_cons, Statement.render_nil, Piece.render, hn,
    String.append_assoc, String.append_empty] using hline

theorem plain_of_isWhole {digits : String} {n : Nat} (h : Number.IsWhole digits.toList n) :
    Plain digits := by
  obtain ⟨ds, hds, -, hdigits, -⟩ := h
  intro c hc
  have hall : c = '+' ∨ c.isDigit = true := by
    rcases hds with hds | hds <;> rw [hds] at hc
    · exact .inr (hdigits c hc)
    · exact (List.mem_cons.mp hc).imp_right (hdigits c)
  rcases hall with rfl | hdigit
  · decide
  · intro hm
    simp only [List.mem_cons, List.not_mem_nil, or_false] at hm
    rcases hm with rfl | rfl | rfl <;> simp at hdigit

theorem isWhole_text_iff {serial : String} {n : Nat} :
    Number.IsWhole (Argument.text serial).toList n ↔ Number.IsWhole serial.toList n := by
  constructor
  · intro h
    rwa [(plain_of_isWhole h).text_eq_iff.mp rfl]
  · intro h
    rwa [(plain_of_isWhole h).text_eq_iff.mpr rfl]

theorem selectWindow_handle (name : String) :
    selectWindow ("handle=" ++ name) = .ok (.act "switchToWindow" [[.quoted name]]) := by
  rw [selectWindow, Text.after?_append]

theorem selectWindow_name (name : String) :
    selectWindow ("name=" ++ name) = .ok (.act "switchToWindow" [[.quoted name]]) := by
  have hhandle : Text.after? "handle=" ("name=" ++ name) = none := by
    simp [Text.after?, List.isPrefixOf?]
  rw [selectWindow, hhandle, Text.after?_append]

theorem selectWindow_serial (serial : String) : selectWindow ("win_ser_" ++ serial) =
    if serial = "local" then .ok (nthWindow 0)
    else match Number.whole? Number.limit64 serial with
      | some n => .ok (nthWindow n)
      | none => .error (.badArgument (.windowSerial ("win_ser_" ++ serial))) := by
  have hhandle : Text.after? "handle=" ("win_ser_" ++ serial) = none := by
    simp [Text.after?, List.isPrefixOf?]
  have hname : Text.after? "name=" ("win_ser_" ++ serial) = none := by
    simp [Text.after?, List.isPrefixOf?]
  rw [selectWindow, hhandle, hname, Text.after?_append]
  by_cases hlocal : serial = "local"
  · rw [if_pos hlocal, hlocal]
    rfl
  · rw [if_neg hlocal]
    cases hn : Number.whole? Number.limit64 serial with
    | none => simp only [hn]
    | some n => simp only [hn]

theorem exists_lead_of_selectWindow {prepared : String} {form : Form}
    (h : selectWindow prepared = .ok form) :
    ∃ lead ∈ ["handle=", "name=", "win_ser_"], ∃ rest, prepared = lead ++ rest := by
  by_contra hnone
  have hafter : ∀ lead ∈ ["handle=", "name=", "win_ser_"], Text.after? lead prepared = none :=
    fun lead hl => Text.after?_eq_none_iff.mpr fun rest hrest => hnone ⟨lead, hl, rest, hrest⟩
  rw [selectWindow, hafter _ (by decide), hafter _ (by decide), hafter _ (by decide)] at h
  cases h

theorem selectWindow_text_of_asks {w : WindowChoice} (h : AsksWindow (2 ^ 64) raw w) :
    selectWindow (Argument.text raw) = .ok (windowForm w) := by
  cases h with
  | handle name => rw [Plain.text_append (by decide), selectWindow_handle, windowForm]
  | name name => rw [Plain.text_append (by decide), selectWindow_name, windowForm]
  | first => rfl
  | @serial digits n hwhole hlimit =>
      have hread : Number.whole? Number.limit64 (Argument.text digits) = some n :=
        Number.whole?_eq_some_iff.mpr ⟨isWhole_text_iff.mpr hwhole, by unfold Number.limit64; omega⟩
      have hlocal : Argument.text digits ≠ "local" := by
        intro he
        rw [he] at hread
        cases hread
      rw [Plain.text_append (by decide), selectWindow_serial, if_neg hlocal, hread, windowForm]

theorem exists_asks_of_selectWindow {form : Form} (h : selectWindow (Argument.text raw) = .ok form) :
    ∃ w, AsksWindow (2 ^ 64) raw w := by
  obtain ⟨lead, hlead, p, hp⟩ := exists_lead_of_selectWindow h
  have hplain : ∀ lead ∈ ["handle=", "name=", "win_ser_"], Plain lead := by decide
  obtain ⟨rest, rfl, rfl⟩ := (hplain lead hlead).text_eq_append_iff.mp hp
  simp only [List.mem_cons, List.not_mem_nil, or_false] at hlead
  rcases hlead with rfl | rfl | rfl
  · exact ⟨_, .handle rest⟩
  · exact ⟨_, .name rest⟩
  · rw [hp, selectWindow_serial] at h
    by_cases hlocal : Argument.text rest = "local"
    · obtain rfl := (Plain.text_eq_iff (by decide)).mp hlocal
      exact ⟨_, .first⟩
    · rw [if_neg hlocal] at h
      cases hread : Number.whole? Number.limit64 (Argument.text rest) with
      | none => simp [hread] at h
      | some n =>
          obtain ⟨hwhole, hlimit⟩ := Number.whole?_eq_some_iff.mp hread
          exact ⟨_, .serial (isWhole_text_iff.mp hwhole) (by unfold Number.limit64 at hlimit; omega)⟩

end Emission

/-! ## Recorded and prepared selectors -/

/-- What is written for a prepared locator is what the recorded one asks for. -/
structure Locator.ElementAgrees (raw : String) : Prop where
  accepted_iff : (∃ out, element (Argument.text raw) = .ok out) ↔ ∃ method sought, Asks raw method sought
  written : ∀ method sought, Asks raw method sought → ∃ e, Interpolates e sought ∧
    element (Argument.text raw) = .ok ("WebDriverBy::" ++ method ++ "(" ++ e ++ ")")

/-- What is written for a prepared option selector is what the recorded one chooses. -/
structure Locator.OptionAgrees (raw : String) : Prop where
  refused_iff : (∃ fault, option (Argument.text raw) = .error fault) ↔ IsRefused raw
  accepted_iff : (∃ out, option (Argument.text raw) = .ok out) ↔ ∃ key chosen, Chooses raw key chosen
  written : ∀ key chosen, Chooses raw key chosen → ∃ e, Interpolates e chosen ∧
    option (Argument.text raw) = .ok ("['" ++ key ++ "' => " ++ e ++ "]")

/-- A step that stores an attribute reads the one that its recorded target asks for. -/
structure Emission.AttributeAgrees (baseUrl : String) (s : Step) : Prop where
  accepted_iff : (∃ f, Registry.builtin.emit ⟨baseUrl, .webDriver⟩ s = .ok f) ↔
    ∃ method sought key, AsksAttribute s.target method sought key
  written : ∀ method sought key, AsksAttribute s.target method sought key →
    ∃ e e' f, Interpolates e sought ∧ Interpolates e' key ∧
      Registry.builtin.emit ⟨baseUrl, .webDriver⟩ s = .ok f ∧
      ⟨1, "$attribute = $driver->findElement(WebDriverBy::" ++ method ++ "(" ++ e ++
        "))->getAttribute(" ++ e' ++ ");"⟩ ∈ f.lines

/-- A step that selects a window switches to the one that its recorded target asks for. -/
structure Emission.WindowAgrees (baseUrl : String) (s : Step) : Prop where
  accepted_iff : (∃ f, Registry.builtin.emit ⟨baseUrl, .webDriver⟩ s = .ok f) ↔
    ∃ w, AsksWindow (2 ^ 64) s.target w
  called : ∀ name, AsksWindow (2 ^ 64) s.target (.called name) →
    ∃ e f, Interpolates e name ∧ Registry.builtin.emit ⟨baseUrl, .webDriver⟩ s = .ok f ∧
      ⟨0, "$i->switchToWindow(" ++ e ++ ");"⟩ ∈ f.lines
  opened : ∀ n, AsksWindow (2 ^ 64) s.target (.opened n) →
    ∃ f, Registry.builtin.emit ⟨baseUrl, .webDriver⟩ s = .ok f ∧
      ⟨1, "$driver->switchTo()->window($driver->getWindowHandles()[" ++ toString n ++ "]);"⟩ ∈ f.lines

theorem Locator.elementAgrees (raw : String) : ElementAgrees raw := by
  constructor
  · constructor
    · rintro ⟨out, hout⟩
      obtain ⟨method, sought, hasks, -⟩ := element_text_eq_ok_iff.mp hout
      exact ⟨method, sought, hasks⟩
    · rintro ⟨method, sought, hasks⟩
      exact ⟨_, element_text_eq_ok_iff.mpr ⟨method, sought, hasks, rfl⟩⟩
  · intro method sought hasks
    refine ⟨_, interpolates_text sought, ?_⟩
    rw [element_text_eq_ok_iff, ← search_eq]
    exact ⟨method, sought, hasks, rfl⟩

theorem Locator.optionAgrees (raw : String) : OptionAgrees raw := by
  refine ⟨option_text_fails_iff, ?_, ?_⟩
  · constructor
    · rintro ⟨out, hout⟩
      apply exists_chooses
      intro hrefused
      obtain ⟨fault, hfault⟩ := option_text_fails_iff.mpr hrefused
      simp [hout] at hfault
    · rintro ⟨key, chosen, hchooses⟩
      exact ⟨_, option_text_of_chooses hchooses⟩
  · intro key chosen hchooses
    refine ⟨_, interpolates_text chosen, ?_⟩
    rw [← pick_eq]
    exact option_text_of_chooses hchooses

namespace Emission

variable {baseUrl : String} {s : Step}

theorem attributeAgrees (hs : s.command = "storeAttribute") : AttributeAgrees baseUrl s := by
  have henabled : s.isDisabled = false := by
    rw [Step.isDisabled, hs]
    decide
  have haction : Action.ofCommand? s.command = some .storeAttribute := by
    rw [hs]
    decide +kernel
  have hcompose (form : Form) : Action.storeAttribute.compose ⟨baseUrl, .webDriver⟩ s = .ok form ↔
      ∃ method sought key, AsksAttribute s.target method sought key ∧
        form = attributeForm method sought key s.value := by
    rw [← storeAttribute_text_eq_ok_iff]
    rfl
  constructor
  · rw [Registry.exists_emit_builtin_iff henabled haction]
    constructor
    · rintro ⟨form, hform⟩
      obtain ⟨method, sought, key, hasks, -⟩ := (hcompose form).mp hform
      exact ⟨method, sought, key, hasks⟩
    · rintro ⟨method, sought, key, hasks⟩
      exact ⟨_, (hcompose _).mpr ⟨method, sought, key, hasks, rfl⟩⟩
  · intro method sought key hasks
    have hform := (hcompose (attributeForm method sought key s.value)).mpr
      ⟨method, sought, key, hasks, rfl⟩
    obtain ⟨f, hf, hlines⟩ := Registry.exists_emit_builtin henabled haction hform
    have hline := hlines _ (mem_lines_attributeForm method sought key s.value)
    exact ⟨_, _, f, interpolates_text sought, interpolates_text key, hf, hline⟩

theorem windowAgrees (hs : s.command = "selectWindow") : WindowAgrees baseUrl s := by
  have henabled : s.isDisabled = false := by
    rw [Step.isDisabled, hs]
    decide
  have haction : Action.ofCommand? s.command = some .selectWindow := by
    rw [hs]
    decide +kernel
  have hcompose : Action.selectWindow.compose ⟨baseUrl, .webDriver⟩ s =
      selectWindow (Argument.text s.target) := rfl
  constructor
  · rw [Registry.exists_emit_builtin_iff henabled haction, hcompose]
    constructor
    · rintro ⟨form, hform⟩
      exact exists_asks_of_selectWindow hform
    · rintro ⟨w, hasks⟩
      exact ⟨_, selectWindow_text_of_asks hasks⟩
  · intro name hasks
    obtain ⟨f, hf, hlines⟩ := Registry.exists_emit_builtin henabled haction
      (hcompose.trans (selectWindow_text_of_asks hasks))
    exact ⟨_, f, interpolates_text name, hf, hlines _ (mem_lines_switch name)⟩
  · intro n hasks
    obtain ⟨f, hf, hlines⟩ := Registry.exists_emit_builtin henabled haction
      (hcompose.trans (selectWindow_text_of_asks hasks))
    exact ⟨f, hf, hlines _ (mem_lines_nthWindow n)⟩

end Emission

/-- Cutting prepared text agrees with cutting the text that was recorded. No character that is added
by the preparation separates parts or completes a lead, no cut falls into an escape or a reference,
and each part is worth the recorded part. -/
theorem selectors_agree (baseUrl raw : String) (s : Step) :
    Locator.ElementAgrees raw ∧ Locator.OptionAgrees raw ∧
      Emission.AttributeAgrees baseUrl { s with command := "storeAttribute", target := raw } ∧
      Emission.WindowAgrees baseUrl { s with command := "selectWindow", target := raw } :=
  ⟨Locator.elementAgrees raw, Locator.optionAgrees raw, Emission.attributeAgrees rfl,
    Emission.windowAgrees rfl⟩

/-- The first separator counts, and a reference after it is an expression of its own. -/
example : Locator.element (Argument.text "id=a=${b}") =
    .ok "WebDriverBy::id('a=' . $this->vars['b'])" := by
  decide +kernel

/-- A window number that does not fit into 64 bits is refused. -/
theorem serial_beyond_limit_refused :
    let s : Step := { Step.blank with command := "selectWindow", target := "win_ser_18446744073709551616" }
    (∃ n, Emission.AsksWindow (n + 1) s.target (.opened n)) ∧
      ¬ ∃ f, Registry.builtin.emit ⟨"", .webDriver⟩ s = .ok f := by
  intro s
  have hdigits : Number.IsWhole "18446744073709551616".toList (2 ^ 64) :=
    ⟨_, .inl rfl, by decide, List.all_eq_true.mp (by decide), by decide⟩
  have htarget : s.target = "win_ser_" ++ "18446744073709551616" := by decide
  have haction : Action.ofCommand? s.command = some .selectWindow := by decide +kernel
  have hread : Number.whole? Number.limit64 "18446744073709551616" = none := by decide
  have htext : Argument.text s.target = "win_ser_" ++ "18446744073709551616" :=
    (Plain.text_eq_iff (by decide)).mpr htarget
  rw [Registry.exists_emit_builtin_iff (by decide) haction]
  refine ⟨⟨2 ^ 64, htarget ▸ .serial hdigits (Nat.lt_succ_self _)⟩, ?_⟩
  rintro ⟨form, hform⟩
  change Emission.selectWindow (Argument.text s.target) = _ at hform
  rw [htext, Emission.selectWindow_serial, if_neg (by decide), hread] at hform
  cases hform

end CestWriter
