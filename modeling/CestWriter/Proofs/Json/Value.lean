import CestWriter.Proofs.Json.Written
import CestWriter.Proofs.Table

/-! # Values of drafts and sources

A draft has a value unless something unusable lies in it. What is unusable shows in the source: a
number beyond the doubles, half a surrogate pair, or containers nested too deep. -/

namespace CestWriter.Json

/-! ## Values of drafts -/

/-- Induction where items and fields are known by membership. -/
@[elab_as_elim]
theorem Draft.ind {P : Draft → Prop} (unusable : P .unusable) (null : P .null)
    (bool : ∀ b, P (.bool b)) (number : ∀ n, P (.number n)) (string : ∀ s, P (.string s))
    (array : ∀ items, (∀ d ∈ items, P d) → P (.array items))
    (object : ∀ fields, (∀ f ∈ fields, P f.2) → P (.object fields)) (d : Draft) : P d := by
  refine Draft.rec (motive_1 := P) (motive_2 := fun items => ∀ d ∈ items, P d)
    (motive_3 := fun fields => ∀ f ∈ fields, P f.2) (motive_4 := fun f => P f.2)
    unusable null bool number string array object ?_ ?_ ?_ ?_ ?_ d
  · simp
  · exact fun d items hd hitems => List.forall_mem_cons.mpr ⟨hd, hitems⟩
  · simp
  · exact fun f fields hf hfields => List.forall_mem_cons.mpr ⟨hf, hfields⟩
  · exact fun key d hd => hd

/-- A field has the key and the value of its draft. -/
def FieldValue (f : String × Draft) (v : String × Json) : Prop :=
  f.1 = v.1 ∧ f.2.value? = some v.2

/-- Sets fields one after another, so that of a repeated key the last one counts. -/
def setFields (done values : List (String × Json)) : List (String × Json) :=
  values.foldl (fun table v => Table.set v.1 v.2 table) done

theorem Draft.values?_eq_some_iff {items : List Draft} {values : List Json} :
    Draft.values? items = some values ↔ List.Forall₂ (fun d v => d.value? = some v) items values := by
  induction items generalizing values with
  | nil => simp [Draft.values?, eq_comm]
  | cons d items ih =>
      rw [List.forall₂_cons_left_iff]
      simp only [Draft.values?, Option.bind_eq_bind, Option.bind_eq_some_iff, Option.some.injEq, ih]
      constructor
      · rintro ⟨v, hv, values, h, rfl⟩
        exact ⟨v, values, hv, h, rfl⟩
      · rintro ⟨v, values, hv, h, rfl⟩
        exact ⟨v, hv, values, h, rfl⟩

theorem Draft.fieldValues?_eq_some_iff {fields : List (String × Draft)}
    {done out : List (String × Json)} :
    Draft.fieldValues? fields done = some out ↔
      ∃ values, List.Forall₂ FieldValue fields values ∧ setFields done values = out := by
  induction fields generalizing done with
  | nil => simp [Draft.fieldValues?, setFields]
  | cons f fields ih =>
      obtain ⟨key, d⟩ := f
      simp only [Draft.fieldValues?, Option.bind_eq_bind, Option.bind_eq_some_iff, ih]
      constructor
      · rintro ⟨v, hv, values, h, rfl⟩
        exact ⟨(key, v) :: values, .cons ⟨rfl, hv⟩ h, rfl⟩
      · rintro ⟨_, _ | ⟨⟨rfl, hv⟩, h⟩, rfl⟩
        exact ⟨_, hv, _, h, rfl⟩

theorem Draft.isSome_value?_array {items : List Draft} :
    (Draft.array items).value?.isSome = true ↔ ∀ d ∈ items, d.value?.isSome = true := by
  rw [Draft.value?, Option.isSome_map]
  induction items with
  | nil => simp [Draft.values?]
  | cons d items ih =>
      rw [List.forall_mem_cons, ← ih, Draft.values?]
      cases d.value? <;> cases Draft.values? items <;> simp

theorem Draft.isSome_value?_object {fields : List (String × Draft)} :
    (Draft.object fields).value?.isSome = true ↔ ∀ f ∈ fields, f.2.value?.isSome = true := by
  rw [Draft.value?, Option.isSome_map]
  generalize [] = done
  induction fields generalizing done with
  | nil => simp [Draft.fieldValues?]
  | cons f fields ih =>
      obtain ⟨key, d⟩ := f
      rw [List.forall_mem_cons, Draft.fieldValues?]
      cases hd : d.value? with
      | none => simp
      | some v => simpa [hd] using ih _

/-- What related elements take over holds throughout the second list. -/
theorem forall_mem_of_forall₂ {α β : Type*} {R : α → β → Prop} {Q : β → Prop} {xs : List α}
    {ys : List β} (h : List.Forall₂ R xs ys) (hq : ∀ x ∈ xs, ∀ y, R x y → Q y) : ∀ y ∈ ys, Q y := by
  induction h with
  | nil => simp
  | cons hxy _ ih =>
      obtain ⟨hfirst, hrest⟩ := List.forall_mem_cons.mp hq
      exact List.forall_mem_cons.mpr ⟨hfirst _ hxy, ih hrest⟩

/-! ## Ordered values -/

/-- A value that can stand in memory: the keys of every object ascend. -/
inductive Ordered : Json → Prop
  | null : Ordered .null
  | bool (b : Bool) : Ordered (.bool b)
  | number (n : Json.Number) : Ordered (.number n)
  | string (s : String) : Ordered (.string s)
  | array {items : List Json} (h : ∀ v ∈ items, Ordered v) : Ordered (.array items)
  | object {fields : List (String × Json)} (hkeys : Table.Ascending fields)
    (h : ∀ f ∈ fields, Ordered f.2) : Ordered (.object fields)

theorem ascending_setFields {done : List (String × Json)} (h : Table.Ascending done)
    (values : List (String × Json)) : Table.Ascending (setFields done values) := by
  induction values generalizing done with
  | nil => exact h
  | cons v values ih => exact ih (h.set v.1 v.2)

theorem mem_setFields {done values : List (String × Json)} {f : String × Json}
    (h : f ∈ setFields done values) : f ∈ values ∨ f ∈ done := by
  induction values generalizing done with
  | nil => exact .inr h
  | cons v values ih =>
      rcases ih h with h | h
      · exact .inl (.tail _ h)
      · rcases Table.mem_set h with rfl | h
        · exact .inl (.head _)
        · exact .inr h

/-- Fields with ascending keys are set one behind the other. -/
theorem setFields_append {done values : List (String × Json)}
    (h : Table.Ascending (done ++ values)) : setFields done values = done ++ values := by
  induction values generalizing done with
  | nil => simp [setFields]
  | cons v values ih =>
      have hlast : ∀ e ∈ done, e.1 < v.1 := fun e he =>
        (List.pairwise_append.mp h).2.2 e he v (.head _)
      have hset : Table.set v.1 v.2 done = done ++ [v] := Table.set_of_forall_lt hlast v.2
      have hstep : setFields done (v :: values) = setFields (done ++ [v]) values := by
        rw [← hset]
        rfl
      rw [hstep, ih (by simpa using h), List.append_assoc, List.singleton_append]

theorem ordered_of_value? {d : Draft} {v : Json} (h : d.value? = some v) : v.Ordered := by
  induction d using Draft.ind generalizing v with
  | unusable => cases h
  | null =>
      obtain rfl := Option.some.inj h
      exact .null
  | bool b =>
      obtain rfl := Option.some.inj h
      exact .bool b
  | number n =>
      obtain rfl := Option.some.inj h
      exact .number n
  | string s =>
      obtain rfl := Option.some.inj h
      exact .string s
  | array items ih =>
      obtain ⟨values, hvalues, rfl⟩ := Option.map_eq_some_iff.mp h
      have hitems := Draft.values?_eq_some_iff.mp hvalues
      exact .array (forall_mem_of_forall₂ hitems fun d hd v hv => ih d hd hv)
  | object fields ih =>
      obtain ⟨out, hout, rfl⟩ := Option.map_eq_some_iff.mp h
      obtain ⟨values, hvalues, rfl⟩ := Draft.fieldValues?_eq_some_iff.mp hout
      refine .object (ascending_setFields .nil values) fun f hf => ?_
      have hmem : f ∈ values := (mem_setFields hf).resolve_right List.not_mem_nil
      exact forall_mem_of_forall₂ hvalues (fun e he v hv => ih e he hv.2) f hmem

theorem drafts_eq (items : List Json) : drafts items = items.map draft := by
  induction items with
  | nil => rfl
  | cons v items ih => rw [drafts, ih, List.map_cons]

theorem draftFields_eq (fields : List (String × Json)) :
    draftFields fields = fields.map fun f => (f.1, f.2.draft) := by
  induction fields with
  | nil => rfl
  | cons f fields ih => rw [draftFields, ih, List.map_cons]

/-- An ordered value is read back from its draft. -/
theorem Ordered.value?_draft {v : Json} (h : v.Ordered) : v.draft.value? = some v := by
  induction h with
  | null => rfl
  | bool b => rfl
  | number n => rfl
  | string s => rfl
  | @array items h ih =>
      have hitems : Draft.values? (items.map draft) = some items := by
        rw [Draft.values?_eq_some_iff, List.forall₂_map_left_iff, List.forall₂_same]
        exact ih
      rw [draft, drafts_eq, Draft.value?, hitems]
      rfl
  | @object fields hkeys h ih =>
      have hfields : Draft.fieldValues? (fields.map fun f => (f.1, f.2.draft)) [] = some fields := by
        refine Draft.fieldValues?_eq_some_iff.mpr ⟨fields, ?_, setFields_append hkeys⟩
        rw [List.forall₂_map_left_iff, List.forall₂_same]
        exact fun f hf => ⟨rfl, ih f hf⟩
      rw [draft, draftFields_eq, Draft.value?, hfields]
      rfl

/-! ## Values of sources -/

/-- Induction where items and fields are known by membership. -/
@[elab_as_elim]
theorem Source.ind {P : Source → Prop} (null : P .null) (bool : ∀ b, P (.bool b))
    (numeral : ∀ p, P (.numeral p)) (string : ∀ codes, P (.string codes))
    (array : ∀ items, (∀ s ∈ items, P s) → P (.array items))
    (object : ∀ fields, (∀ f ∈ fields, P f.2) → P (.object fields)) (s : Source) : P s := by
  refine Source.rec (motive_1 := P) (motive_2 := fun items => ∀ s ∈ items, P s)
    (motive_3 := fun fields => ∀ f ∈ fields, P f.2) (motive_4 := fun f => P f.2)
    null bool numeral string array object ?_ ?_ ?_ ?_ ?_ s
  · simp
  · exact fun s items hs hitems => List.forall_mem_cons.mpr ⟨hs, hitems⟩
  · simp
  · exact fun f fields hf hfields => List.forall_mem_cons.mpr ⟨hf, hfields⟩
  · exact fun key s hs => hs

mutual

/-- How deep containers lie within each other. -/
def Source.depth : Source → Nat
  | .null | .bool _ | .numeral _ | .string _ => 0
  | .array items => Source.itemsDepth items + 1
  | .object fields => Source.fieldsDepth fields + 1

def Source.itemsDepth : List Source → Nat
  | [] => 0
  | s :: rest => max s.depth (Source.itemsDepth rest)

def Source.fieldsDepth : List (List Nat × Source) → Nat
  | [] => 0
  | (_, s) :: rest => max s.depth (Source.fieldsDepth rest)

end

theorem Source.itemsDepth_le {items : List Source} {n : Nat} :
    Source.itemsDepth items ≤ n ↔ ∀ s ∈ items, s.depth ≤ n := by
  induction items with
  | nil => simp [Source.itemsDepth]
  | cons s items ih => rw [Source.itemsDepth, Nat.max_le, ih, List.forall_mem_cons]

theorem Source.fieldsDepth_le {fields : List (List Nat × Source)} {n : Nat} :
    Source.fieldsDepth fields ≤ n ↔ ∀ f ∈ fields, f.2.depth ≤ n := by
  induction fields with
  | nil => simp [Source.fieldsDepth]
  | cons f fields ih => rw [Source.fieldsDepth, Nat.max_le, ih, List.forall_mem_cons]

/-- One container more than what lies deepest in it. -/
theorem add_succ_le_iff {α : Type} {xs : List α} {f : α → Nat} {inner depth limit : Nat}
    (hinner : ∀ n, inner ≤ n ↔ ∀ x ∈ xs, f x ≤ n) : depth + (inner + 1) ≤ limit ↔
      depth + 1 ≤ limit ∧ ∀ x ∈ xs, depth + 1 + f x ≤ limit := by
  constructor
  · intro h
    refine ⟨by omega, fun x hx => ?_⟩
    have hle := (hinner (limit - (depth + 1))).mp (by omega) x hx
    omega
  · rintro ⟨hd, h⟩
    have hle := (hinner (limit - (depth + 1))).mpr fun x hx => by
      have hx := h x hx
      omega
    omega

/-- Every number lies within the doubles, and no surrogate stands alone. -/
inductive Source.Legible : Source → Prop
  | null : Legible .null
  | bool (b : Bool) : Legible (.bool b)
  | numeral {p : Numeral.Parts} (h : p.number?.isSome = true) : Legible (.numeral p)
  | string {codes : List Nat} (h : Paired codes) : Legible (.string codes)
  | array {items : List Source} (h : ∀ s ∈ items, Legible s) : Legible (.array items)
  | object {fields : List (List Nat × Source)} (hkeys : ∀ f ∈ fields, Paired f.1)
    (h : ∀ f ∈ fields, Legible f.2) : Legible (.object fields)

theorem isSome_textOf?_iff {codes : List Nat} : (textOf? codes).isSome = true ↔ Paired codes := by
  rw [textOf?, Option.isSome_map, isSome_joinCodes?_iff]

theorem Source.drafts_eq (depth : Nat) (items : List Source) :
    Source.drafts depth items = items.map (Source.draft depth) := by
  induction items with
  | nil => rfl
  | cons s items ih => rw [Source.drafts, ih, List.map_cons]

/-- The fields of a container whose keys are texts all have values just if the container has one. -/
theorem Source.isSome_fields_iff {depth : Nat} {fields : List (List Nat × Source)} :
    (((Source.fieldDrafts? depth fields).map .object).getD .unusable : Draft).value?.isSome = true ↔
      ∀ f ∈ fields, Paired f.1 ∧ (f.2.draft depth).value?.isSome = true := by
  induction fields with
  | nil => simp [Source.fieldDrafts?, Draft.isSome_value?_object]
  | cons f fields ih =>
      obtain ⟨key, s⟩ := f
      rw [List.forall_mem_cons, ← ih, Source.fieldDrafts?, ← isSome_textOf?_iff]
      cases htext : textOf? key with
      | none => simp [Draft.value?]
      | some text =>
          cases Source.fieldDrafts? depth fields with
          | none => simp [Draft.value?]
          | some drafts => simp [Draft.isSome_value?_object]

theorem Draft.isSome_value?_container {depth : Nat} {d : Option Draft} :
    (Draft.container depth d).value?.isSome = true ↔
      depth ≤ maxDepth ∧ (d.getD .unusable).value?.isSome = true := by
  rw [Draft.container]
  split_ifs with h
  · simp [h]
  · simp [h, Draft.value?]

/-- A source has a value just if it is legible and not too deep. -/
theorem Source.isSome_value?_iff {s : Source} {depth : Nat} (hdepth : depth ≤ maxDepth) :
    (s.draft depth).value?.isSome = true ↔ s.Legible ∧ depth + s.depth ≤ maxDepth := by
  induction s using Source.ind generalizing depth with
  | null => simpa [Source.draft, Source.depth, Draft.value?, hdepth] using Legible.null
  | bool b => simpa [Source.draft, Source.depth, Draft.value?, hdepth] using Legible.bool b
  | numeral p =>
      have hlegible : Legible (.numeral p) ↔ p.number?.isSome = true :=
        ⟨fun h => by cases h; assumption, .numeral⟩
      rw [hlegible, Source.draft]
      cases p.number? <;> simp [Draft.value?, Source.depth, hdepth]
  | string codes =>
      have hlegible : Legible (.string codes) ↔ Paired codes :=
        ⟨fun h => by cases h; assumption, .string⟩
      rw [hlegible, ← isSome_textOf?_iff, Source.draft]
      cases textOf? codes <;> simp [Draft.value?, Source.depth, hdepth]
  | array items ih =>
      have hlegible : Legible (.array items) ↔ ∀ s ∈ items, s.Legible :=
        ⟨fun h => by cases h; assumption, .array⟩
      rw [hlegible, Source.depth, add_succ_le_iff fun n => Source.itemsDepth_le, Source.draft,
        Draft.isSome_value?_container, Option.getD_some, Draft.isSome_value?_array,
        Source.drafts_eq, List.forall_mem_map, and_left_comm]
      refine and_congr_right fun hd => ?_
      rw [← forall₂_and]
      exact forall₂_congr fun s hs => ih s hs hd
  | object fields ih =>
      have hlegible : Legible (.object fields) ↔ ∀ f ∈ fields, Paired f.1 ∧ f.2.Legible :=
        ⟨fun h => by cases h with | object hkeys h => exact fun f hf => ⟨hkeys f hf, h f hf⟩,
          fun h => .object (fun f hf => (h f hf).1) fun f hf => (h f hf).2⟩
      rw [hlegible, Source.depth, add_succ_le_iff fun n => Source.fieldsDepth_le, Source.draft,
        Draft.isSome_value?_container, Source.isSome_fields_iff, and_left_comm]
      refine and_congr_right fun hd => ?_
      rw [← forall₂_and]
      exact forall₂_congr fun f hf => by rw [ih f hf hd, and_assoc]

/-! ## Texts and their values -/

/-- A text has a value just if it is legible JSON that is not too deep. -/
theorem isSome_ofText?_iff {s : String} :
    (ofText? s).isSome = true ↔ ∃ source, IsText s source ∧ source.Legible ∧ source.depth ≤ maxDepth := by
  have hread (source : Source) :
      (source.draft 0).value?.isSome = true ↔ source.Legible ∧ source.depth ≤ maxDepth := by
    rw [Source.isSome_value?_iff (Nat.zero_le _), Nat.zero_add]
  rw [ofText?]
  constructor
  · intro h
    obtain ⟨v, hv⟩ := Option.isSome_iff_exists.mp h
    obtain ⟨d, hd, hv⟩ := Option.bind_eq_some_iff.mp hv
    obtain ⟨source, hs, rfl⟩ := Draft.ofText?_eq_some_iff.mp hd
    exact ⟨source, hs, (hread source).mp (by rw [hv, Option.isSome_some])⟩
  · rintro ⟨source, hs, h⟩
    rw [Draft.ofText?_eq_some_iff.mpr ⟨source, hs, rfl⟩]
    exact (hread source).mpr h

theorem ofText?_of_isText {s : String} {source : Source} (h : IsText s source) :
    ofText? s = (source.draft 0).value? := by
  rw [ofText?, Draft.ofText?_eq_some_iff.mpr ⟨source, h, rfl⟩]
  rfl

/-- How deep containers lie within each other. -/
def nesting (v : Json) : Nat :=
  v.source.depth

/-- A value that nests at most `n` deep and has no numbers but whole ones of 64 bits without a sign.
The text of such a value is read back as it was. -/
inductive Lossless : Nat → Json → Prop
  | null {n : Nat} : Lossless n .null
  | bool {n : Nat} (b : Bool) : Lossless n (.bool b)
  | ofNat {n k : Nat} (h : k ≤ CestWriter.Number.limit64) : Lossless n (ofNat k)
  | string {n : Nat} (s : String) : Lossless n (.string s)
  | array {n : Nat} {items : List Json} (h : ∀ v ∈ items, Lossless n v) : Lossless (n + 1) (.array items)
  | object {n : Nat} {fields : List (String × Json)} (h : ∀ f ∈ fields, Lossless n f.2) :
    Lossless (n + 1) (.object fields)

theorem Lossless.mono {v : Json} {n m : Nat} (h : Lossless n v) (hle : n ≤ m) : Lossless m v := by
  induction h generalizing m with
  | null => exact .null
  | bool b => exact .bool b
  | ofNat h => exact .ofNat h
  | string s => exact .string s
  | array h ih =>
      obtain ⟨k, rfl⟩ := Nat.exists_eq_add_of_le' hle
      exact .array fun v hv => ih v hv (Nat.le_add_left _ _)
  | object h ih =>
      obtain ⟨k, rfl⟩ := Nat.exists_eq_add_of_le' hle
      exact .object fun f hf => ih f hf (Nat.le_add_left _ _)

theorem textOf?_codes (s : String) : textOf? (codes s) = some s := by
  rw [textOf?, codes, joinCodes?_chars, Option.map_some, String.ofList_toList]

theorem Source.fieldDrafts?_source (depth : Nat) (fields : List (String × Json)) :
    Source.fieldDrafts? depth (fieldSources fields) =
      some (fields.map fun f => (f.1, f.2.source.draft depth)) := by
  induction fields with
  | nil => rfl
  | cons f fields ih =>
      rw [fieldSources, Source.fieldDrafts?, textOf?_codes, ih]
      rfl

theorem draft_source_array {items : List Json} {depth : Nat} (h : depth + 1 ≤ maxDepth) :
    (Json.array items).source.draft depth = .array (items.map fun v => v.source.draft (depth + 1)) := by
  rw [source, Source.draft, Draft.container, if_pos h, Source.drafts_eq, sources_eq, List.map_map]
  rfl

theorem draft_source_object {fields : List (String × Json)} {depth : Nat} (h : depth + 1 ≤ maxDepth) :
    (Json.object fields).source.draft depth =
      .object (fields.map fun f => (f.1, f.2.source.draft (depth + 1))) := by
  rw [source, Source.draft, Draft.container, if_pos h, Source.fieldDrafts?_source]
  rfl

theorem Lossless.draft_source {v : Json} {n depth : Nat} (h : Lossless n v) (hdepth : depth + n ≤ maxDepth) :
    v.source.draft depth = v.draft := by
  induction h generalizing depth with
  | null => rfl
  | bool b => rfl
  | ofNat h =>
      rw [Json.ofNat, source, Source.draft, Number.number?_parts h]
      rfl
  | string s =>
      rw [source, Source.draft, textOf?_codes]
      rfl
  | array h ih =>
      rw [draft_source_array (by omega), draft, drafts_eq]
      congr 1
      exact List.map_congr_left fun v hv => ih v hv (by omega)
  | object h ih =>
      rw [draft_source_object (by omega), draft, draftFields_eq]
      congr 1
      exact List.map_congr_left fun f hf => by rw [ih f hf (by omega)]

end CestWriter.Json
