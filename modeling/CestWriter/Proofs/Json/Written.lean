import CestWriter.Proofs.Json.Number
import CestWriter.Proofs.Json.Reading
import Mathlib.Data.List.Forall2

/-! # The text of a value

The text of a value spells the value's own source, on one line as well as spread over many. -/

namespace CestWriter.Json

/-! ## Values and their parts -/

/-- Induction where items and fields are known by membership. -/
@[elab_as_elim]
theorem ind {P : Json → Prop} (null : P .null) (bool : ∀ b, P (.bool b))
    (number : ∀ n, P (.number n)) (string : ∀ s, P (.string s))
    (array : ∀ items, (∀ v ∈ items, P v) → P (.array items))
    (object : ∀ fields, (∀ f ∈ fields, P f.2) → P (.object fields)) (v : Json) : P v := by
  refine Json.rec (motive_1 := P) (motive_2 := fun items => ∀ v ∈ items, P v)
    (motive_3 := fun fields => ∀ f ∈ fields, P f.2) (motive_4 := fun f => P f.2)
    null bool number string array object ?_ ?_ ?_ ?_ ?_ v
  · simp
  · exact fun v items hv hitems => List.forall_mem_cons.mpr ⟨hv, hitems⟩
  · simp
  · exact fun f fields hf hfields => List.forall_mem_cons.mpr ⟨hf, hfields⟩
  · exact fun key v hv => hv

theorem renderItems_eq (items : List Json) : renderItems items = items.map render := by
  induction items with
  | nil => rfl
  | cons v items ih => rw [renderItems, ih, List.map_cons]

theorem renderFields_eq (fields : List (String × Json)) :
    renderFields fields = fields.map fun f => quote f.1 ++ ":" ++ render f.2 := by
  induction fields with
  | nil => rfl
  | cons f fields ih => rw [renderFields, ih, List.map_cons]

theorem prettyItems_eq (level : Nat) (items : List Json) :
    prettyItems level items = items.map (renderPretty level) := by
  induction items with
  | nil => rfl
  | cons v items ih => rw [prettyItems, ih, List.map_cons]

theorem prettyFields_eq (level : Nat) (fields : List (String × Json)) :
    prettyFields level fields = fields.map fun f => quote f.1 ++ ": " ++ renderPretty level f.2 := by
  induction fields with
  | nil => rfl
  | cons f fields ih => rw [prettyFields, ih, List.map_cons]

/-! ## Sources of values -/

def codes (s : String) : List Nat :=
  s.toList.map Char.toNat

mutual

/-- What the text of a value spells. -/
def source : Json → Source
  | null => .null
  | bool b => .bool b
  | number n => .numeral n.parts
  | string s => .string (codes s)
  | array items => .array (sources items)
  | object fields => .object (fieldSources fields)

def sources : List Json → List Source
  | [] => []
  | v :: rest => source v :: sources rest

def fieldSources : List (String × Json) → List (List Nat × Source)
  | [] => []
  | (key, v) :: rest => (codes key, source v) :: fieldSources rest

end

theorem sources_eq (items : List Json) : sources items = items.map source := by
  induction items with
  | nil => rfl
  | cons v items ih => rw [sources, ih, List.map_cons]

theorem fieldSources_eq (fields : List (String × Json)) :
    fieldSources fields = fields.map fun f => (codes f.1, source f.2) := by
  induction fields with
  | nil => rfl
  | cons f fields ih => rw [fieldSources, ih, List.map_cons]

/-! ## Pieces of text -/

theorem Blanks.append {gap : List Char} (h : ∀ c ∈ gap, isTextBlank c = true) (rest : List Char) :
    Blanks (gap ++ rest) rest := by
  induction gap with
  | nil => exact .nil rest
  | cons c gap ih =>
      obtain ⟨hc, hgap⟩ := List.forall_mem_cons.mp h
      exact .cons hc (ih hgap)

theorem Blanks.trans {cs mid rest : List Char} (h : Blanks cs mid) (h' : Blanks mid rest) :
    Blanks cs rest := by
  induction h with
  | nil => exact h'
  | cons hc _ ih => exact .cons hc (ih h')

/-- The piece spells the source, whatever follows it. -/
def Writes (s : Source) (piece : List Char) : Prop :=
  ∀ rest, Spells (.value s) (piece ++ rest) rest

def WritesField (f : List Nat × Source) (piece : List Char) : Prop :=
  ∀ rest, ∃ inside, SpellsKey f.1 (piece ++ rest) inside ∧ Spells (.value f.2) inside rest

section

variable {gap : List Char} (hgap : ∀ c ∈ gap, isTextBlank c = true)
include hgap

theorem Writes.blank {s : Source} {piece : List Char} (h : Writes s piece) :
    Writes s (gap ++ piece) := by
  intro rest
  rw [List.append_assoc]
  exact (Blanks.append hgap _).spells (h rest)

theorem WritesField.blank {f : List Nat × Source} {piece : List Char} (h : WritesField f piece) :
    WritesField f (gap ++ piece) := by
  intro rest
  obtain ⟨inside, ⟨hquote, hcodes, hcolon⟩, hvalue⟩ := h rest
  rw [List.append_assoc]
  exact ⟨inside, ⟨(Blanks.append hgap _).trans hquote, hcodes, hcolon⟩, hvalue⟩

/-- A string and its colon stand before the value of a field. -/
theorem Writes.field {s : Source} {piece : List Char} (h : Writes s piece) (key : String) :
    WritesField (codes key, s) ((quote key).toList ++ ':' :: (gap ++ piece)) := by
  intro rest
  refine ⟨gap ++ piece ++ rest, ?_, Writes.blank hgap h rest⟩
  rw [toList_quote]
  simp only [List.cons_append, List.append_assoc, List.nil_append]
  exact ⟨.nil _, codes_quote key _, .nil _⟩

/-- Pieces with commas between them, before each of them the same gap. -/
theorem spells_items {ss : List Source} {pieces : List (List Char)} {close rest : List Char}
    (h : List.Forall₂ Writes ss pieces) (hne : ss ≠ []) (hclose : Blanks close (']' :: rest)) :
    Spells (.items ss) (gap ++ ((',' :: gap).intercalate pieces ++ close)) rest := by
  induction h with
  | nil => exact absurd rfl hne
  | @cons s piece ss pieces hs h ih =>
      rw [← List.append_assoc]
      cases h with
      | nil =>
          rw [List.intercalate_singleton]
          exact .lastItem (Writes.blank hgap hs close) hclose
      | cons hs' h =>
          rw [List.intercalate_cons_cons]
          simp only [List.append_assoc, List.cons_append]
          rw [← List.append_assoc]
          exact .item (Writes.blank hgap hs _) (.nil _) (ih (List.cons_ne_nil _ _))

theorem spells_fields {fs : List (List Nat × Source)} {pieces : List (List Char)}
    {close rest : List Char} (h : List.Forall₂ WritesField fs pieces) (hne : fs ≠ [])
    (hclose : Blanks close ('\x7d' :: rest)) :
    Spells (.fields fs) (gap ++ ((',' :: gap).intercalate pieces ++ close)) rest := by
  induction h with
  | nil => exact absurd rfl hne
  | @cons f piece fs pieces hf h ih =>
      rw [← List.append_assoc]
      cases h with
      | nil =>
          rw [List.intercalate_singleton]
          obtain ⟨inside, hkey, hvalue⟩ := WritesField.blank hgap hf close
          exact .lastField hkey hvalue hclose
      | @cons f' piece' _ _ hf' h =>
          rw [List.intercalate_cons_cons]
          simp only [List.append_assoc, List.cons_append]
          rw [← List.append_assoc]
          obtain ⟨inside, hkey, hvalue⟩ := WritesField.blank hgap hf (',' :: _)
          exact .field hkey hvalue (.nil _) (ih (List.cons_ne_nil _ _))

variable {closing : List Char} (hclosing : ∀ c ∈ closing, isTextBlank c = true)
include hclosing

theorem writes_array {ss : List Source} {pieces : List (List Char)}
    (h : List.Forall₂ Writes ss pieces) :
    Writes (.array ss) ('[' :: (gap ++ ((',' :: gap).intercalate pieces ++ (closing ++ [']'])))) := by
  intro rest
  have hclose : Blanks (closing ++ ']' :: rest) (']' :: rest) := .append hclosing _
  simp only [List.cons_append, List.append_assoc, List.nil_append]
  cases h with
  | nil => exact .emptyArray ((Blanks.append hgap _).trans hclose)
  | cons hs h => exact .array (spells_items hgap (.cons hs h) (List.cons_ne_nil _ _) hclose)

theorem writes_object {fs : List (List Nat × Source)} {pieces : List (List Char)}
    (h : List.Forall₂ WritesField fs pieces) :
    Writes (.object fs)
      ('\x7b' :: (gap ++ ((',' :: gap).intercalate pieces ++ (closing ++ ['\x7d'])))) := by
  intro rest
  have hclose : Blanks (closing ++ '\x7d' :: rest) ('\x7d' :: rest) := .append hclosing _
  simp only [List.cons_append, List.append_assoc, List.nil_append]
  cases h with
  | nil => exact .emptyObject ((Blanks.append hgap _).trans hclose)
  | cons hf h => exact .object (spells_fields hgap (.cons hf h) (List.cons_ne_nil _ _) hclose)

end

/-! ## Texts -/

theorem writes_string (s : String) : Writes (.string (codes s)) (quote s).toList := by
  intro rest
  rw [toList_quote]
  simpa [codes] using Spells.string (codes_quote s rest)

theorem not_mem_nil_blank : ∀ c ∈ ([] : List Char), isTextBlank c = true := by
  simp

theorem writes_render (v : Json) : Writes v.source v.render.toList := by
  induction v using ind with
  | null => exact fun rest => .null rest
  | bool b =>
      cases b with
      | true => exact fun rest => .boolTrue rest
      | false => exact fun rest => .boolFalse rest
  | number n => exact fun rest => .numeral rest n.spells_render
  | string s => exact writes_string s
  | array items ih =>
      have hitems : List.Forall₂ Writes (items.map source)
          ((items.map render).map String.toList) := by
        rw [List.map_map, List.forall₂_map_left_iff, List.forall₂_map_right_iff, List.forall₂_same]
        exact ih
      rw [source, sources_eq, render, renderItems_eq]
      simpa using writes_array not_mem_nil_blank not_mem_nil_blank hitems
  | object fields ih =>
      have hfields : List.Forall₂ WritesField (fields.map fun f => (codes f.1, source f.2))
          ((fields.map fun f => quote f.1 ++ ":" ++ render f.2).map String.toList) := by
        rw [List.map_map, List.forall₂_map_left_iff, List.forall₂_map_right_iff, List.forall₂_same]
        intro f hf
        simpa using (ih f hf).field not_mem_nil_blank f.1
      rw [source, fieldSources_eq, render, renderFields_eq]
      simpa using writes_object not_mem_nil_blank not_mem_nil_blank hfields

theorem margin_blank (level : Nat) : ∀ c ∈ (margin level).toList, isTextBlank c = true := by
  intro c hc
  rw [margin, String.toList_ofList] at hc
  obtain rfl := List.eq_of_mem_replicate hc
  rfl

theorem lineFeed_blank : ∀ c ∈ ['\n'], isTextBlank c = true := by
  simp [isTextBlank]

theorem newLine_blank (level : Nat) :
    ∀ c ∈ '\n' :: (margin level).toList, isTextBlank c = true :=
  List.forall_mem_cons.mpr ⟨rfl, margin_blank level⟩

/-- Parts that are spread out stand in a gap of a line feed, the last of them before another. -/
theorem toList_spread {opening closing : String} {a z : Char} (ha : opening.toList = [a])
    (hz : closing.toList = [z]) (level : Nat) {parts : List String} (hne : parts ≠ []) :
    (spread opening closing level parts).toList =
      a :: (['\n'] ++ ((',' :: ['\n']).intercalate
        (parts.map fun part => (margin (level + 1)).toList ++ part.toList) ++
          ('\n' :: (margin level).toList ++ [z]))) := by
  have hempty : parts.isEmpty = false := by simpa using hne
  have hmap : (parts.map (margin (level + 1) ++ ·)).map String.toList =
      parts.map fun part => (margin (level + 1)).toList ++ part.toList := by simp
  simp [spread, hempty, String.toList_append, String.toList_intercalate, ha, hz, ← hmap]

theorem writes_spread_array (level : Nat) {ss : List Source} {parts : List String}
    (h : List.Forall₂ (fun s part => Writes s part.toList) ss parts) :
    Writes (.array ss) (spread "[" "]" level parts).toList := by
  by_cases hne : parts = []
  · subst hne
    cases h
    rw [spread, if_pos List.isEmpty_nil, String.toList_append]
    exact writes_array not_mem_nil_blank not_mem_nil_blank .nil
  · rw [toList_spread rfl rfl level hne]
    refine writes_array lineFeed_blank (newLine_blank level) ?_
    rw [List.forall₂_map_right_iff]
    exact h.imp fun s part hs => hs.blank (margin_blank _)

theorem writes_spread_object (level : Nat) {fs : List (List Nat × Source)} {parts : List String}
    (h : List.Forall₂ (fun f part => WritesField f part.toList) fs parts) :
    Writes (.object fs) (spread "\x7b" "\x7d" level parts).toList := by
  by_cases hne : parts = []
  · subst hne
    cases h
    rw [spread, if_pos List.isEmpty_nil, String.toList_append]
    exact writes_object not_mem_nil_blank not_mem_nil_blank .nil
  · rw [toList_spread rfl rfl level hne]
    refine writes_object lineFeed_blank (newLine_blank level) ?_
    rw [List.forall₂_map_right_iff]
    exact h.imp fun f part hf => hf.blank (margin_blank _)

theorem writes_renderPretty (v : Json) (level : Nat) :
    Writes v.source (v.renderPretty level).toList := by
  induction v using ind generalizing level with
  | null => exact writes_render .null
  | bool b => exact writes_render (.bool b)
  | number n => exact writes_render (.number n)
  | string s => exact writes_render (.string s)
  | array items ih =>
      rw [source, sources_eq, renderPretty, prettyItems_eq]
      refine writes_spread_array level ?_
      rw [List.forall₂_map_left_iff, List.forall₂_map_right_iff, List.forall₂_same]
      exact fun v hv => ih v hv _
  | object fields ih =>
      rw [source, fieldSources_eq, renderPretty, prettyFields_eq]
      refine writes_spread_object level ?_
      rw [List.forall₂_map_left_iff, List.forall₂_map_right_iff, List.forall₂_same]
      intro f hf
      have hgap : ∀ c ∈ [' '], isTextBlank c = true := by simp [isTextBlank]
      simpa using (ih f hf _).field hgap f.1

theorem Writes.isText {s : Source} {text : String} (h : Writes s text.toList) : IsText text s :=
  ⟨[], by simpa using h [], .nil []⟩

theorem isText_render (v : Json) : IsText v.render v.source :=
  (writes_render v).isText

theorem isText_renderPretty (v : Json) (level : Nat) : IsText (v.renderPretty level) v.source :=
  (writes_renderPretty v level).isText

end CestWriter.Json
