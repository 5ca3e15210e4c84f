import CestWriter.Proofs.Emission.Confinement
import CestWriter.Proofs.Emission.Scripts
import CestWriter.Proofs.Php.KeyArguments
import CestWriter.Proofs.Recording.Cutting

/-! # Key sequences

The segments of a value are written as the arguments of a key sequence and as quoted text. Two
functions write them, and without special keys both stand for the same characters. A special key is
whatever follows `KEY_` in the name of a reference, which need not be the name of a constant. -/

namespace CestWriter

open Php (KeyArgument Operand Outlined Statement keyConstants outline)

/-! ## The argument of a segment -/

/-- What a segment is typed as. -/
inductive Segment.Types : Segment → KeyArgument → Prop
  | literal {s : String} : Types (.literal s) (.operand (.literal s.toList))
  | key {name : String} : Types (.reference ("KEY_" ++ name)) (.constant name.toList)
  | stored {name : String} (h : ∀ key, name ≠ "KEY_" ++ key) :
    Types (.reference name) (.operand (.slot name.toList))

/-- The argument that an item of a key sequence is written as. -/
def KeyPart.argument : KeyPart → KeyArgument
  | .text s => .operand (.literal s.toList)
  | .variable name => .operand (.slot name.toList)
  | .key name => .constant name.toList

theorem Segment.types_keyPart (segment : Segment) :
    segment.Types (Argument.keyPart segment).argument := by
  cases segment with
  | literal s => exact .literal
  | reference name =>
      rw [Argument.keyPart]
      split
      · rename_i key hkey
        obtain rfl := Text.after?_eq_some_iff.mp hkey
        exact .key
      · rename_i hnone
        exact .stored (Text.after?_eq_none_iff.mp hnone)

theorem Segment.types_ofText (raw : String) :
    List.Forall₂ Types (ofText raw) ((Argument.keys raw).map KeyPart.argument) := by
  rw [Argument.keys, List.map_map, List.forall₂_map_right_iff, List.forall₂_same]
  exact fun segment _ => segment.types_keyPart

theorem Segment.Types.constant?_eq_some_iff {segment : Segment} {x : KeyArgument}
    (h : segment.Types x) {name : List Char} :
    x.constant? = some name ↔ ∃ key : String, segment = .reference ("KEY_" ++ key) ∧ key.toList = name := by
  cases h with
  | literal => simp [KeyArgument.constant?]
  | @key key =>
      simp only [KeyArgument.constant?, Option.some.injEq, Segment.reference.injEq]
      constructor
      · intro h
        exact ⟨key, rfl, h⟩
      · rintro ⟨other, he, rfl⟩
        have := Text.after?_append "KEY_" key
        rw [he, Text.after?_append, Option.some.injEq] at this
        rw [this]
  | stored hnot =>
      simp only [KeyArgument.constant?, reduceCtorEq, Segment.reference.injEq, false_iff, not_exists,
        not_and]
      exact fun key he => absurd he (hnot key)

/-- A segment that is no special key has the value of its characters, or of its variable. -/
theorem Segment.Types.value {segment : Segment} {x : KeyArgument} (h : segment.Types x)
    (hkey : ∀ key, segment ≠ .reference ("KEY_" ++ key)) (ρ κ : String → String) :
    x.value ρ κ = segment.tokens.flatMap (Token.value ρ) := by
  cases h with
  | @literal s => simp [KeyArgument.value, Operand.value, tokens, Token.value, List.flatMap_map]
  | @key name => exact (hkey name rfl).elim
  | stored _ => simp [KeyArgument.value, Operand.value, tokens, Token.value]

theorem Segment.flatMap_value {segments : List Segment} {items : List KeyArgument}
    (h : List.Forall₂ Types segments items)
    (hkey : ∀ key, reference ("KEY_" ++ key) ∉ segments) (ρ κ : String → String) :
    items.flatMap (KeyArgument.value ρ κ) = (segments.flatMap tokens).flatMap (Token.value ρ) := by
  induction h with
  | nil => rfl
  | @cons segment x segments items hx _ ih =>
      have hsegment : ∀ key, segment ≠ .reference ("KEY_" ++ key) := fun key he =>
        hkey key (he ▸ .head _)
      have hrest := ih fun key hm => hkey key (.tail _ hm)
      rw [List.flatMap_cons, List.flatMap_cons, List.flatMap_append, hx.value hsegment, hrest]

theorem Segment.mem_ofText_iff {raw name : String} {ts : List Token} (h : Tokens raw.toList ts) :
    reference name ∈ ofText raw ↔ Token.reference name ∈ ts := by
  rw [← (tokens_iff raw ts).mp h, List.mem_flatMap]
  constructor
  · exact fun hm => ⟨_, hm, .head _⟩
  · rintro ⟨segment, hm, hname⟩
    cases segment with
    | literal s => simp [tokens] at hname
    | reference other =>
        obtain rfl : name = other := by simpa [tokens] using hname
        exact hm

/-! ## The text of the arguments -/

namespace Emission

theorem argument_isNamed {raw : String} {part : KeyPart} (h : part ∈ Argument.keys raw) :
    part.argument.IsNamed := by
  intro name he
  match part with
  | .text s => simp [KeyPart.argument] at he
  | .variable other => simp [KeyPart.argument] at he
  | .key other =>
      obtain rfl := KeyArgument.constant.inj he
      exact Argument.isNameChar_of_key_mem_keys h

theorem toList_keyArgument {raw : String} {part : KeyPart} (h : part ∈ Argument.keys raw) :
    (Statement.render (keyArgument part)).toList = part.argument.text := by
  match part with
  | .text s =>
      rw [keyArgument, Statement.toList_render, List.flatMap_singleton, toList_literal]
      rfl
  | .variable name =>
      rw [keyArgument, Statement.toList_render, List.flatMap_singleton,
        toList_slot (Argument.isName_of_variable_mem_keys h)]
      rfl
  | .key name =>
      simp [keyArgument, Statement.toList_render, Php.Piece.render, KeyPart.argument,
        KeyArgument.text, Php.keyFront]

/-- The arguments of a key sequence. An empty value is an empty literal. -/
def keyItems (raw : String) : List KeyArgument :=
  if Argument.keys raw = [] then [.operand (.literal [])]
  else (Argument.keys raw).map KeyPart.argument

theorem keyItems_ne_nil (raw : String) : keyItems raw ≠ [] := by
  unfold keyItems
  split
  · simp
  · simpa

theorem keyItems_isNamed (raw : String) : ∀ x ∈ keyItems raw, x.IsNamed := by
  intro x hx
  unfold keyItems at hx
  split at hx
  · obtain rfl := List.mem_singleton.mp hx
    exact fun name he => by simp at he
  · obtain ⟨part, hm, rfl⟩ := List.mem_map.mp hx
    exact argument_isNamed hm

theorem toList_keyArguments (raw : String) :
    (Statement.render (keyArguments (Argument.keys raw))).toList =
      Php.argumentList (keyItems raw) := by
  by_cases hnil : Argument.keys raw = []
  · simp [keyArguments, keyItems, hnil, Statement.toList_render, toList_literal, KeyArgument.text,
      Php.argumentList_singleton]
  · have htexts : (Argument.keys raw).map (fun part => (Statement.render (keyArgument part)).toList) =
        (Argument.keys raw).map fun part => part.argument.text :=
      List.map_congr_left fun part hm => toList_keyArgument hm
    rw [keyArguments, if_neg (by simpa using hnil), Statement.toList_render_commas, List.map_map,
      Function.comp_def, htexts, keyItems, if_neg hnil, Php.argumentList, List.map_map]
    rfl

theorem keys_eq_nil_iff {raw : String} : Argument.keys raw = [] ↔ raw = "" := by
  constructor
  · intro h
    have htokens : Tokens raw.toList [] := by
      rw [Segment.tokens_iff, List.map_eq_nil_iff.mp h, List.flatMap_nil]
    generalize he : raw.toList = cs at htokens
    cases htokens
    exact String.toList_eq_nil_iff.mp he
  · rintro rfl
    rfl

theorem keyItems_types {raw : String} (h : raw ≠ "") :
    List.Forall₂ Segment.Types (Segment.ofText raw) (keyItems raw) := by
  rw [keyItems, if_neg (keys_eq_nil_iff.not.mpr h)]
  exact Segment.types_ofText raw

theorem flatMap_value_keyItems {raw : String} {ts : List Token} (hts : Tokens raw.toList ts)
    (hkey : ∀ key, Token.reference ("KEY_" ++ key) ∉ ts) (ρ κ : String → String) :
    (keyItems raw).flatMap (KeyArgument.value ρ κ) = ts.flatMap (Token.value ρ) := by
  have htokens := (Segment.tokens_iff raw ts).mp hts
  by_cases h : raw = ""
  · subst h
    rw [← htokens]
    rfl
  · have hsegments : ∀ key, Segment.reference ("KEY_" ++ key) ∉ Segment.ofText raw := fun key hm =>
      hkey key ((Segment.mem_ofText_iff hts).mp hm)
    rw [Segment.flatMap_value (keyItems_types h) hsegments, htokens]

/-- The arguments of a key sequence are an empty literal for an empty value, and otherwise one item
for each segment, in order: a closed literal, a stored variable or a special key. Without special keys
they are worth as much as the text of the value, whatever the variables hold. -/
theorem key_arguments_agree_with_text (raw : String) :
    ∃ items xs ts,
      Php.readArguments? (Statement.render (keyArguments (Argument.keys raw))).toList = some items ∧
      (raw = "" → items = [.operand (.literal [])]) ∧
      (raw ≠ "" → List.Forall₂ Segment.Types (Segment.ofText raw) items) ∧
      Tokens raw.toList ts ∧ (Segment.ofText raw).flatMap Segment.tokens = ts ∧
      Php.readConcatenation? (Php.quote (Argument.text raw)).toList = some xs ∧
      ((∀ key, Token.reference ("KEY_" ++ key) ∉ ts) →
        ∀ ρ κ, items.flatMap (KeyArgument.value ρ κ) = xs.flatMap (Operand.value ρ)) := by
  obtain ⟨ts, xs, hts, hxs, -, hvalue⟩ := interpolates_text raw
  refine ⟨keyItems raw, xs, ts, ?_, ?_, keyItems_types, hts, (Segment.tokens_iff raw ts).mp hts, hxs,
    fun hkey ρ κ => ?_⟩
  · rw [toList_keyArguments]
    exact Php.readArguments?_argumentList (keyItems_ne_nil raw) (keyItems_isNamed raw)
  · rintro rfl
    rfl
  · rw [flatMap_value_keyItems hts hkey, hvalue]

end Emission

/-! ## Special keys in a statement -/

/-- Locators of recorded arguments bring no special key into the code. -/
def LocatorWriter.IsKeyless (w : LocatorWriter) : Prop :=
  ∀ raw e, w.locator (Argument.text raw) = .ok e →
    ∃ out, Outlined e.toList out ∧ keyConstants out = []

theorem IsLocator.keyConstants_eq {out : List Char} (h : IsLocator out) : keyConstants out = [] := by
  obtain ⟨method, hm, e, he, rfl⟩ := h
  have hexpression : ':' ∉ e := by
    induction he with
    | one h => rcases h with rfl | rfl <;> decide
    | more h _ ih =>
        simp only [List.mem_append, not_or]
        refine ⟨⟨?_, by decide⟩, ih⟩
        rcases h with rfl | rfl <;> decide
  have hmethod : keyConstants ("WebDriverBy::".toList ++ method.toList) = [] := by
    revert method
    decide
  have hrest : keyConstants (e ++ [')']) = [] :=
    Php.keyConstants_of_not_mem (by simpa using hexpression)
  have hcall : "WebDriverBy::".toList ++ method.toList ++ "(".toList ++ e ++ ")".toList =
      ("WebDriverBy::".toList ++ method.toList) ++ '(' :: (e ++ [')']) := by simp
  rw [hcall, Php.keyConstants_append (by decide) (by decide), hmethod, hrest, List.append_nil]

theorem LocatorWriter.isKeyless_webDriver : LocatorWriter.webDriver.IsKeyless := by
  intro raw e he
  simp only [webDriver] at he
  obtain ⟨out, hout, hlocator⟩ := Locator.element_outlined (Prepared.text raw) he
  exact ⟨out, hout, hlocator.keyConstants_eq⟩

namespace Emission

/-- The line of a step that presses keys. -/
def keyLine (element raw : String) : String :=
  Statement.render (Statement.act "pressKey" [[.expression element], keyArguments (Argument.keys raw)])

theorem toList_keyLine (element raw : String) : (keyLine element raw).toList =
    "$i->pressKey(".toList ++ (element.toList ++ ',' :: ' ' ::
      (Php.argumentList (keyItems raw) ++ [')', ';'])) := by
  rw [keyLine, Statement.act, Statement.toList_render_append, Statement.toList_render_append,
    Statement.toList_render_commas, ← toList_keyArguments]
  simp [Statement.toList_render, Php.Piece.render]

theorem outlined_keyLine {element : String} {out : List Char} (h : Outlined element.toList out)
    (hkeyless : keyConstants out = []) (raw : String) :
    ∃ line, Outlined (keyLine element raw).toList line ∧
      keyConstants line = (keyItems raw).filterMap KeyArgument.constant? := by
  obtain ⟨items, hitems, hkeys⟩ := Php.outlined_argumentList (keyItems_isNamed raw)
  have hlead : Outlined "$i->pressKey(".toList ("$i->pressKey".toList ++ ['(']) := .plain (by decide)
  have hcomma : Outlined [',', ' '] [',', ' '] := .plain (by decide)
  have hend : Outlined [')', ';'] [')', ';'] := .plain (by decide)
  refine ⟨"$i->pressKey".toList ++ '(' :: (out ++ ',' :: ([] ++ ' ' :: (items ++ ')' :: [';']))), ?_, ?_⟩
  · rw [toList_keyLine]
    simpa using hlead.append (h.append (hcomma.append (hitems.append hend)))
  · have hfirst : keyConstants "$i->pressKey".toList = [] := by decide
    rw [Php.keyConstants_append (by decide) (by decide), Php.keyConstants_append (by decide) (by decide),
      Php.keyConstants_append (by decide) (by decide), Php.keyConstants_append (by decide) (by decide),
      hfirst, hkeyless, hkeys]
    simp [keyConstants, Php.keyFront, List.isPrefixOf?]

theorem filterMap_keyItems (raw : String) : (keyItems raw).filterMap KeyArgument.constant? =
    (Segment.ofText raw).filterMap fun segment => (Argument.keyPart segment).argument.constant? := by
  by_cases h : Argument.keys raw = []
  · rw [keyItems, if_pos h, List.map_eq_nil_iff.mp h]
    rfl
  · rw [keyItems, if_neg h, Argument.keys, List.map_map, List.filterMap_map]
    rfl

/-- The special keys of a key sequence are what follows `KEY_` in the references of the value. -/
theorem mem_keyItems_constants_iff {raw : String} {ts : List Token} (hts : Tokens raw.toList ts)
    {name : List Char} : name ∈ (keyItems raw).filterMap KeyArgument.constant? ↔
      ∃ key : String, Token.reference ("KEY_" ++ key) ∈ ts ∧ key.toList = name := by
  rw [filterMap_keyItems, List.mem_filterMap]
  constructor
  · rintro ⟨segment, hm, hconstant⟩
    obtain ⟨key, rfl, hkey⟩ := segment.types_keyPart.constant?_eq_some_iff.mp hconstant
    exact ⟨key, (Segment.mem_ofText_iff hts).mp hm, hkey⟩
  · rintro ⟨key, hm, hkey⟩
    exact ⟨_, (Segment.mem_ofText_iff hts).mpr hm,
      (Segment.types_keyPart _).constant?_eq_some_iff.mpr ⟨key, rfl, hkey⟩⟩

end Emission

namespace Registry

variable {setting : Setting} {s : Step} {f : Fragment}

theorem emit_keys_eq_ok_iff (hc : s.command ∈ ["sendKeys", "type"]) :
    builtin.emit setting s = .ok f ↔ ∃ element,
      setting.locators.locator (Argument.text s.target) = .ok element ∧
      f = if s.opensWindow then Window.wrap s (.statement (Emission.keyLine element s.value))
        else .statement (Emission.keyLine element s.value) := by
  have hcommand : Text.startsWith "//" s.command = false ∧
      Action.ofCommand? s.command = some .sendKeys := by
    simp only [List.mem_cons, List.not_mem_nil, or_false] at hc
    rcases hc with hc | hc <;> rw [hc] <;> decide +kernel
  rw [emit_builtin_eq_ok_iff hcommand.1, hcommand.2]
  simp only [Option.some.injEq, exists_and_left, exists_eq_left', Action.compose]
  cases setting.locators.locator (Argument.text s.target) with
  | error e => simp [bind, Except.bind]
  | ok element => simp [bind, Except.bind, pure, Except.pure, Form.act, Form.render, Emission.keyLine]

/-- The special keys in the line of a step are what follows `KEY_` in the references of its value.
All of them are identifiers just where what follows is not empty and does not begin with a digit. -/
theorem special_keys_identifiers_iff (hw : setting.locators.IsKeyless)
    (hc : s.command ∈ ["sendKeys", "type"]) (h : builtin.emit setting s = .ok f) :
    ∃ line out ts,
      f = (if s.opensWindow then Window.wrap s (.statement line) else .statement line) ∧
      Outlined line.toList out ∧ Tokens s.value.toList ts ∧
      (∀ name, name ∈ keyConstants out ↔
        ∃ key : String, Token.reference ("KEY_" ++ key) ∈ ts ∧ key.toList = name) ∧
      ((∀ name ∈ keyConstants out, Php.IsIdentifier name) ↔
        ∀ key : String, Token.reference ("KEY_" ++ key) ∈ ts →
          ∃ c, key.toList.head? = some c ∧ c.isDigit = false) := by
  obtain ⟨element, helement, hf⟩ := (emit_keys_eq_ok_iff hc).mp h
  obtain ⟨out, hout, hkeyless⟩ := hw _ _ helement
  obtain ⟨ts, hts⟩ := Argument.exists_tokens s.value
  obtain ⟨line, hline, hkeys⟩ := Emission.outlined_keyLine hout hkeyless s.value
  have hmem : ∀ name, name ∈ keyConstants line ↔
      ∃ key : String, Token.reference ("KEY_" ++ key) ∈ ts ∧ key.toList = name := fun name =>
    hkeys ▸ Emission.mem_keyItems_constants_iff hts
  have hidentifier : ∀ key : String, Token.reference ("KEY_" ++ key) ∈ ts →
      (Php.IsIdentifier key.toList ↔ ∃ c, key.toList.head? = some c ∧ c.isDigit = false) := by
    intro key hkey
    have hname := (hts.named _ hkey).2
    rw [String.toList_append, List.forall_mem_append] at hname
    exact Php.isIdentifier_iff hname.2
  refine ⟨_, line, ts, hf, hline, hts, hmem, fun hall key hkey => ?_, fun hall name hname => ?_⟩
  · exact (hidentifier key hkey).mp (hall _ ((hmem _).mpr ⟨key, hkey, rfl⟩))
  · obtain ⟨key, hkey, rfl⟩ := (hmem name).mp hname
    exact (hidentifier key hkey).mpr (hall key hkey)

/-- A reference with nothing after `KEY_` is taken for a special key, and leaves a constant without
a name. -/
theorem special_keys_identifiers_iff_of_nothing :
    let s : Step := { Step.blank with command := "type", target := "id=q", value := "$\x7bKEY_\x7d" }
    ∃ f, builtin.emit ⟨"", .webDriver⟩ s = .ok f ∧
      ∃ line out, f = .statement line ∧ Outlined line.toList out ∧ [] ∈ keyConstants out ∧
        ¬ ∀ name ∈ keyConstants out, Php.IsIdentifier name := by
  intro s
  let setting : Setting := ⟨"", .webDriver⟩
  have hw : setting.locators.IsKeyless := LocatorWriter.isKeyless_webDriver
  have hc : s.command ∈ ["sendKeys", "type"] := by decide
  have helement : LocatorWriter.webDriver.locator (Argument.text s.target) =
      .ok (Locator.search "id" "q") := by
    simp only [LocatorWriter.webDriver, s]
    rfl
  have hf : builtin.emit ⟨"", .webDriver⟩ s =
      .ok (.statement (Emission.keyLine (Locator.search "id" "q") s.value)) :=
    (emit_keys_eq_ok_iff hc).mpr ⟨_, helement, by rw [if_neg (by decide)]⟩
  have htokens : Tokens s.value.toList [.reference "KEY_"] :=
    (Segment.tokens_iff s.value _).mpr (by decide)
  have hkey : Token.reference ("KEY_" ++ "") ∈ [Token.reference "KEY_"] := by decide
  obtain ⟨line, out, ts, hline, hout, hts, hmem, hiff⟩ :=
    special_keys_identifiers_iff hw hc hf
  rw [if_neg (by decide)] at hline
  rw [hts.unique htokens] at hmem hiff
  refine ⟨_, hf, line, out, hline, hout, (hmem []).mpr ⟨"", hkey, rfl⟩, fun hall => ?_⟩
  obtain ⟨c, hc, -⟩ := hiff.mp hall "" hkey
  simp at hc

end Registry

end CestWriter
