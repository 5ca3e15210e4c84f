import CestWriter.Json.Record
import CestWriter.Proofs.Fallible
import CestWriter.Proofs.Json.Value
import Mathlib.Data.List.Nodup

/-! # Spellings of records

The ways in which the values of a type may stand in JSON, told without a reader. A record may be an
object, with fields in any order and others between them, or an array of its fields. -/

namespace CestWriter.Json

/-- How the values of a type may stand in JSON. -/
abbrev Spelling (α : Type) := α → Draft → Prop

/-- A part of a record: its name, what it is, and how it is spelled. -/
structure Part (σ : Type) where
  name : String
  Component : Type
  get : σ → Component
  spelling : Spelling Component

/-- What stands under the name of a part in an object: nothing, where the record is like the blank
one, or one spelling. -/
inductive Part.Stands {σ : Type} (blank x : σ) (p : Part σ) : List (String × Draft) → Prop
  | omitted (h : p.get x = p.get blank) : Stands blank x p []
  | given {d : Draft} (h : p.spelling (p.get x) d) : Stands blank x p [(p.name, d)]

namespace Spelling

variable {α σ : Type}

inductive string : Spelling String
  | mk (s : String) : string s (.string s)

inductive bool : Spelling Bool
  | mk (b : Bool) : bool b (.bool b)

/-- A whole number of 64 bits without a sign. -/
inductive unsigned64 : Spelling Nat
  | mk {n : Nat} (h : n ≤ Number.limit64) : unsigned64 n (.number (.whole n))

inductive any : Spelling Json
  | mk {v : Json} {d : Draft} (h : d.value? = some v) : any v d

inductive list (item : Spelling α) : Spelling (List α)
  | mk {xs : List α} {items : List Draft} (h : List.Forall₂ item xs items) :
    list item xs (.array items)

/-- Null stands for nothing, and never for something. -/
inductive option (item : Spelling α) : Spelling (Option α)
  | none : option item none .null
  | some {x : α} {d : Draft} (hd : d ≠ .null) (h : item x d) : option item (some x) d

/-- Fields with the names of other records, or of none, may hold anything. -/
inductive record (blank : σ) (parts : List (Part σ)) : Spelling σ
  | object {x : σ} {entries : List (String × Draft)}
    (h : ∀ p ∈ parts, p.Stands blank x (entries.filter (·.1 = p.name))) :
    record blank parts x (.object entries)
  | array {x : σ} {items : List Draft}
    (h : List.Forall₂ (fun (p : Part σ) d => p.spelling (p.get x) d) parts items) :
    record blank parts x (.array items)

def part (s : Spelling α) (name : String) (get : σ → α) : Part σ :=
  ⟨name, α, get, s⟩

end Spelling

/-! ## Reading -/

/-- The reader finds every value in each of its spellings. -/
def Reads {α : Type} (read : Reader α) (s : Spelling α) : Prop :=
  ∀ ⦃x : α⦄ ⦃d : Draft⦄, s x d → read d = .ok x

section

variable {α : Type} {c : Codec α} {s : Spelling α}

theorem reads_string : Reads Codec.string.read .string := by
  rintro _ _ ⟨s⟩
  rfl

theorem reads_bool : Reads Codec.bool.read .bool := by
  rintro _ _ ⟨b⟩
  rfl

theorem reads_unsigned64 : Reads Codec.unsigned64.read .unsigned64 := by
  rintro n _ ⟨h⟩
  have hrange : (0 : Int) ≤ n ∧ (n : Int) ≤ CestWriter.Number.limit64 := by omega
  simp only [Codec.unsigned64, Reader.unsigned64, Reader.unsigned, Reader.whole, if_pos hrange]
  rfl

theorem reads_any : Reads Codec.any.read .any := by
  rintro _ _ ⟨h⟩
  simp only [Codec.any, Reader.any, h]

theorem reads_list (h : Reads c.read s) : Reads c.list.read (.list s) := by
  rintro xs _ ⟨hitems⟩
  exact mapM_eq_ok_iff.mpr (hitems.flip.imp fun d x hx => h hx)

theorem reads_option (h : Reads c.read s) : Reads c.option.read (.option s) := by
  rintro _ _ (_ | ⟨hd, hx⟩)
  · rfl
  · show Reader.option c.read _ = _
    rw [Reader.option, h hx]
    · rfl
    · exact hd

end

theorem lossless_ofList {α : Type} {write : α → Json} {xs : List α} {n : Nat}
    (h : ∀ x ∈ xs, Lossless n (write x)) : Lossless (n + 1) (ofList write xs) :=
  .array (List.forall_mem_map.mpr h)

theorem lossless_ofOption {α : Type} {write : α → Json} {o : Option α} {n : Nat}
    (h : ∀ x, o = some x → Lossless n (write x)) : Lossless n (ofOption write o) := by
  cases o with
  | none => exact .null
  | some x => exact h x rfl

namespace Record

variable {σ : Type}

/-- Reading the field puts what the part's spelling stands for into the record, and leaves the other
parts alone. -/
structure FieldReads (parts : List (Part σ)) (f : Field σ) (p : Part σ) : Prop where
  name_eq : f.name = p.name
  optional : f.required = false
  read : ∀ {x d} (y : σ), p.spelling (p.get x) d →
    ∃ z, f.read d y = .ok z ∧ p.get z = p.get x ∧ ∀ q ∈ parts, q.name ≠ p.name → q.get z = q.get y

/-- The parts are those of the record type, field by field, and make up the whole record. -/
structure Fits (r : Record σ) (parts : List (Part σ)) : Prop where
  fields : List.Forall₂ (FieldReads parts) r.fields parts
  nodup : (parts.map Part.name).Nodup
  ext : ∀ {x y : σ}, (∀ p ∈ parts, p.get x = p.get y) → x = y

theorem fieldReads_field {α : Type} {c : Codec α} {s : Spelling α} (h : Reads c.read s) {name : String}
    {get : σ → α} {set : σ → α → σ} {parts : List (Part σ)} (hget : ∀ x v, get (set x v) = v)
    (hothers : ∀ q ∈ parts, q.name ≠ name → ∀ x v, q.get (set x v) = q.get x) :
    FieldReads parts (c.field name get set) (s.part name get) where
  name_eq := rfl
  optional := rfl
  read := by
    intro x d y hx
    refine ⟨set y (get x), ?_, hget y _, fun q hq hne => hothers q hq hne y _⟩
    show (c.read d).map (set y) = _
    rw [h hx]
    rfl

theorem fieldReads_optional {α : Type} {c : Codec α} {s : Spelling α} (h : Reads c.read s)
    {name : String} {get : σ → Option α} {set : σ → Option α → σ} {parts : List (Part σ)}
    (hget : ∀ x v, get (set x v) = v)
    (hothers : ∀ q ∈ parts, q.name ≠ name → ∀ x v, q.get (set x v) = q.get x) :
    FieldReads parts (c.optional name get set) (s.option.part name get) where
  name_eq := rfl
  optional := rfl
  read := (fieldReads_field (reads_option h) hget hothers).read

/-- A part is done with when no field of its name is left and the record has it, and is awaited as
long as its one field has not been met. -/
inductive Awaits (x y : σ) (seen : List String) (entries : List (String × Draft)) (p : Part σ) : Prop
  | done (hnone : entries.filter (·.1 = p.name) = []) (hy : p.get y = p.get x)
  | awaited {d : Draft} (hseen : p.name ∉ seen) (hone : entries.filter (·.1 = p.name) = [(p.name, d)])
    (hd : p.spelling (p.get x) d)

theorem awaits_of_stands {blank x : σ} {p : Part σ} {entries : List (String × Draft)}
    (h : p.Stands blank x (entries.filter (·.1 = p.name))) : Awaits x blank [] entries p := by
  generalize hes : entries.filter (·.1 = p.name) = es at h
  cases h with
  | omitted h => exact .done hes h.symm
  | given h => exact .awaited List.not_mem_nil hes h

theorem find?_name {parts ps : List (Part σ)} {fields : List (Field σ)}
    (hfields : List.Forall₂ (FieldReads parts) fields ps) (key : String) :
    (fields.find? (·.name == key) = none ∧ ∀ p ∈ ps, p.name ≠ key) ∨
      ∃ f p, fields.find? (·.name == key) = some f ∧ p ∈ ps ∧ p.name = key ∧ FieldReads parts f p := by
  induction hfields with
  | nil => exact .inl ⟨rfl, by simp⟩
  | @cons f p fields ps hf _ ih =>
      by_cases hkey : p.name = key
      · have hbeq : (f.name == key) = true := by simpa [hf.name_eq] using hkey
        exact .inr ⟨f, p, by rw [List.find?_cons, hbeq], .head _, hkey, hf⟩
      · have hbeq : (f.name == key) = false := by simpa [hf.name_eq] using hkey
        rw [List.find?_cons, hbeq]
        rcases ih with ⟨hfind, hforeign⟩ | ⟨f', p', hfind, hm, hname, hf'⟩
        · exact .inl ⟨hfind, List.forall_mem_cons.mpr ⟨hkey, hforeign⟩⟩
        · exact .inr ⟨f', p', hfind, .tail _ hm, hname, hf'⟩

theorem Awaits.skip {x y z : σ} {seen : List String} {entries : List (String × Draft)} {p : Part σ}
    {key : String} {d : Draft} (ha : Awaits x y seen ((key, d) :: entries) p) (hkey : p.name ≠ key)
    (hz : p.get z = p.get y) : Awaits x z seen entries p ∧ Awaits x z (key :: seen) entries p := by
  have hskip : ((key, d) :: entries).filter (·.1 = p.name) = entries.filter (·.1 = p.name) :=
    List.filter_cons_of_neg (by simpa using hkey.symm)
  cases ha with
  | done hnone hy => exact ⟨.done (hskip ▸ hnone) (hz.trans hy), .done (hskip ▸ hnone) (hz.trans hy)⟩
  | awaited hseen hone hd =>
      exact ⟨.awaited hseen (hskip ▸ hone) hd, .awaited (by simp [hkey, hseen]) (hskip ▸ hone) hd⟩

namespace Fits

variable {r : Record σ} {parts : List (Part σ)} (h : r.Fits parts)
include h

theorem eq_of_name_eq {p q : Part σ} (hp : p ∈ parts) (hq : q ∈ parts) (he : p.name = q.name) : p = q :=
  List.inj_on_of_nodup_map h.nodup hp hq he

/-- Reading the fields that are left completes the record. -/
theorem readFields_eq {x y : σ} {seen : List String} {entries : List (String × Draft)}
    (hp : ∀ p ∈ parts, Awaits x y seen entries p) :
    ∃ seen', r.readFields entries seen y = .ok (seen', x) := by
  induction entries generalizing seen y with
  | nil =>
      have hxy : y = x := h.ext fun p hm => by
        cases hp p hm with
        | done _ hy => exact hy
        | awaited _ hone _ => cases hone
      exact ⟨seen, by rw [readFields, hxy]⟩
  | cons entry entries ih =>
      obtain ⟨key, d⟩ := entry
      rcases find?_name h.fields key with ⟨hfind, hforeign⟩ | ⟨f, p, hfind, hm, rfl, hf⟩
      · -- A foreign field belongs to no part, so all of them wait on.
        obtain ⟨seen', hrest⟩ := ih fun q hq => ((hp q hq).skip (hforeign q hq) rfl).1
        exact ⟨seen', by rw [readFields, hfind, ← hrest]⟩
      · cases hp p hm with
        | done hnone _ => simp at hnone
        | @awaited d' hseen hone hd =>
            rw [List.filter_cons_of_pos (by simp), List.cons.injEq, Prod.mk.injEq] at hone
            obtain ⟨⟨-, rfl⟩, hrest⟩ := hone
            obtain ⟨z, hread, hz, hothers⟩ := hf.read y hd
            have hall : ∀ q ∈ parts, Awaits x z (p.name :: seen) entries q := fun q hq => by
              by_cases hname : q.name = p.name
              · obtain rfl := h.eq_of_name_eq hq hm hname
                exact .done hrest hz
              · exact ((hp q hq).skip hname (hothers q hq hname)).2
            obtain ⟨seen', hrest⟩ := ih hall
            refine ⟨seen', ?_⟩
            rw [readFields, hfind, ← hrest]
            simp [hseen, hread, Except.bind]

/-- Reading an item for each field that is left completes the record. -/
theorem readItems_eq {x y : σ} {total i : Nat} {fields : List (Field σ)} {ps : List (Part σ)}
    {items : List Draft} (hfields : List.Forall₂ (FieldReads parts) fields ps)
    (hitems : List.Forall₂ (fun (p : Part σ) d => p.spelling (p.get x) d) ps items)
    (hps : ∀ p ∈ ps, p ∈ parts) (hy : ∀ p ∈ parts, p ∉ ps → p.get y = p.get x) :
    r.readItems total fields items i y = .ok x := by
  induction hfields generalizing y items i with
  | nil =>
      cases hitems
      rw [readItems, h.ext fun p hp => hy p hp List.not_mem_nil]
  | @cons f p fields ps hf _ ih =>
      obtain ⟨hp, hps⟩ := List.forall_mem_cons.mp hps
      cases hitems with
      | cons hd hitems =>
          obtain ⟨z, hread, hz, hothers⟩ := hf.read y hd
          rw [readItems, hread]
          refine ih hitems hps fun q hq hnot => ?_
          by_cases hname : q.name = p.name
          · obtain rfl := h.eq_of_name_eq hq hp hname
            exact hz
          · refine (hothers q hq hname).trans (hy q hq ?_)
            rw [List.mem_cons, not_or]
            exact ⟨fun he => hname (he ▸ rfl), hnot⟩

/-- A record type whose fields are those of the parts reads every spelling. -/
theorem reads : Reads r.read (.record r.blank parts) := by
  rintro x _ (hentries | hitems)
  · obtain ⟨seen, hread⟩ := h.readFields_eq fun p hp => awaits_of_stands (hentries p hp)
    have hrequired : (r.fields.find? fun f => f.required && !seen.contains f.name) = none := by
      rw [List.find?_eq_none]
      exact forall_mem_of_forall₂ h.fields.flip fun p _ f hf => by simp [hf.optional]
    rw [Record.read, hread]
    simp only [bind, Except.bind, hrequired]
  · exact h.readItems_eq h.fields hitems (fun _ hp => hp) fun p hp hnot => absurd hp hnot

end Fits

/-! ## Writing -/

/-- What the field writes for the record `x`, taken over by `conv`, is the spelling of `y`'s part. -/
inductive FieldSpells (conv : Json → Draft) (blank x y : σ) (f : Field σ) (p : Part σ) : Prop
  | omitted (hname : f.name = p.name) (hwrite : f.write x = none) (h : p.get y = p.get blank)
  | given {v : Json} (hname : f.name = p.name) (hwrite : f.write x = some v)
    (h : p.spelling (p.get y) (conv v))

theorem fieldSpells_field {α : Type} {c : Codec α} {s : Spelling α} {name : String} {get : σ → α}
    {set : σ → α → σ} {conv : Json → Draft} {blank x y : σ} (h : s (get y) (conv (c.write (get x)))) :
    FieldSpells conv blank x y (c.field name get set) (s.part name get) :=
  .given rfl rfl h

theorem fieldSpells_optional {α : Type} {c : Codec α} {s : Spelling α} {name : String}
    {get : σ → Option α} {set : σ → Option α → σ} {conv : Json → Draft} {blank x : σ}
    (hblank : get blank = none) (h : ∀ a, get x = some a → s.option (some a) (conv (c.write a))) :
    FieldSpells conv blank x x (c.optional name get set) (s.option.part name get) := by
  cases hx : get x with
  | none =>
      refine .omitted rfl ?_ (hx.trans hblank.symm)
      show (get x).map c.write = none
      rw [hx]
      rfl
  | some a =>
      refine .given rfl (v := c.write a) ?_ ?_
      · show (get x).map c.write = some (c.write a)
        rw [hx]
        rfl
      · show s.option (get x) _
        rw [hx]
        exact h a hx

/-- The fields of the object that is written. -/
def written (fields : List (Field σ)) (x : σ) : List (String × Json) :=
  fields.filterMap fun f => (f.write x).map fun value => (f.name, value)

section

variable {conv : Json → Draft} {blank x y : σ} {fields : List (Field σ)} {parts : List (Part σ)}
  (h : List.Forall₂ (FieldSpells conv blank x y) fields parts)
include h

theorem mem_names_of_mem_written : ∀ e ∈ written fields x, e.1 ∈ parts.map Part.name := by
  induction h with
  | nil => simp [written]
  | cons hf _ ih =>
      intro e he
      rw [List.map_cons]
      cases hf with
      | omitted hname hwrite _ =>
          rw [written, List.filterMap_cons_none (by rw [hwrite]; rfl)] at he
          exact .tail _ (ih e he)
      | given hname hwrite _ =>
          rw [written, List.filterMap_cons_some (by rw [hwrite]; rfl)] at he
          rcases List.mem_cons.mp he with rfl | he
          · exact hname ▸ .head _
          · exact .tail _ (ih e he)

theorem stands_written (hnodup : (parts.map Part.name).Nodup) : ∀ p ∈ parts,
    p.Stands blank y (((written fields x).map fun e => (e.1, conv e.2)).filter (·.1 = p.name)) := by
  induction h with
  | nil => simp
  | @cons f p fields parts hf hrest ih =>
      rw [List.map_cons, List.nodup_cons] at hnodup
      obtain ⟨hfresh, hnodup⟩ := hnodup
      have hnone : ((written fields x).map fun e => (e.1, conv e.2)).filter (·.1 = p.name) = [] := by
        rw [List.filter_eq_nil_iff, List.forall_mem_map]
        intro e he
        have hmem := mem_names_of_mem_written hrest e he
        have hne : e.1 ≠ p.name := fun hname => hfresh (hname ▸ hmem)
        simpa using hne
      have hskip : ∀ q ∈ parts, q.name ≠ p.name := fun q hq hname =>
        hfresh (hname ▸ List.mem_map_of_mem hq)
      cases hf with
      | omitted hname hwrite h =>
          rw [written, List.filterMap_cons_none (by rw [hwrite]; rfl)]
          exact List.forall_mem_cons.mpr ⟨hnone ▸ .omitted h, ih hnodup⟩
      | given hname hwrite h =>
          rw [written, List.filterMap_cons_some (by rw [hwrite]; rfl), List.map_cons]
          refine List.forall_mem_cons.mpr ⟨?_, fun q hq => ?_⟩
          · rw [List.filter_cons_of_pos (by simpa using hname)]
            rw [← written, hnone, hname]
            exact .given h
          · rw [List.filter_cons_of_neg (by simpa [hname] using (hskip q hq).symm)]
            exact ih hnodup q hq

end

/-- The object that is written is a spelling. -/
theorem Fits.spells_write {r : Record σ} {parts : List (Part σ)} (h : r.Fits parts) {x : σ}
    (hfields : List.Forall₂ (FieldSpells draft r.blank x x) r.fields parts) :
    Spelling.record r.blank parts x (r.write x).draft := by
  show Spelling.record r.blank parts x (Json.object (written r.fields x)).draft
  rw [draft, draftFields_eq]
  exact .object (stands_written hfields h.nodup)

/-- What a field writes is what its codec writes. -/
theorem of_field {α : Type} {c : Codec α} {name : String} {get : σ → α} {set : σ → α → σ} {x : σ}
    {Q : Json → Prop} (h : Q (c.write (get x))) : ∀ v, (c.field name get set).write x = some v → Q v := by
  intro v hv
  obtain rfl := Option.some.inj hv
  exact h

theorem of_optional {α : Type} {c : Codec α} {name : String} {get : σ → Option α}
    {set : σ → Option α → σ} {x : σ} {Q : Json → Prop} (h : ∀ a, get x = some a → Q (c.write a)) :
    ∀ v, (c.optional name get set).write x = some v → Q v := by
  intro v hv
  obtain ⟨a, ha, rfl⟩ := Option.map_eq_some_iff.mp hv
  exact h a ha

theorem forall_mem_written {fields : List (Field σ)} {x : σ} {Q : Json → Prop}
    (h : ∀ f ∈ fields, ∀ v, f.write x = some v → Q v) : ∀ e ∈ written fields x, Q e.2 := by
  intro e he
  obtain ⟨f, hf, he⟩ := List.mem_filterMap.mp he
  obtain ⟨v, hv, rfl⟩ := Option.map_eq_some_iff.mp he
  exact h f hf v hv

theorem lossless_write {r : Record σ} {x : σ} {n : Nat}
    (h : ∀ f ∈ r.fields, ∀ v, f.write x = some v → Lossless n v) : Lossless (n + 1) (r.write x) :=
  .object (forall_mem_written h)

/-! ## Texts -/

/-- What is written is read back from its text, on one line or spread out. -/
theorem ofText?_write {r : Record σ} {s : Spelling σ} (hr : Reads r.read s) {x : σ}
    (hx : s x (r.write x).draft) (hlossless : Lossless maxDepth (r.write x)) {text : String}
    (htext : IsText text (r.write x).source) : r.ofText? text = some x := by
  have hdraft : Draft.ofText? text = some (r.write x).draft := by
    rw [Draft.ofText?_eq_some_iff]
    exact ⟨_, htext, (hlossless.draft_source (Nat.zero_add _).le).symm⟩
  rw [ofText?, hdraft, Option.bind_some, hr hx]
  rfl

end Record

/-! ## Values in between -/

/-- A spelling stays one when it becomes a value and is written from there. -/
def Stable {α : Type} (s : Spelling α) : Prop :=
  ∀ ⦃x : α⦄ ⦃d : Draft⦄ ⦃v : Json⦄, s x d → d.value? = some v → s x v.draft

theorem stable_string : Stable .string := by
  rintro _ _ v ⟨_⟩ hv
  obtain rfl := Option.some.inj hv
  exact .mk _

theorem stable_bool : Stable .bool := by
  rintro _ _ v ⟨_⟩ hv
  obtain rfl := Option.some.inj hv
  exact .mk _

theorem stable_unsigned64 : Stable .unsigned64 := by
  rintro n _ v ⟨h⟩ hv
  obtain rfl := Option.some.inj hv
  exact .mk h

theorem stable_any : Stable .any := by
  rintro x d v ⟨h⟩ hv
  obtain rfl := Option.some.inj (h.symm.trans hv)
  exact .mk (ordered_of_value? h).value?_draft

theorem draft_ne_null {d : Draft} {v : Json} (hd : d ≠ .null) (hv : d.value? = some v) :
    v.draft ≠ .null := by
  cases d with
  | unusable => cases hv
  | null => exact absurd rfl hd
  | bool b | number n | string s =>
      obtain rfl := Option.some.inj hv
      exact Draft.noConfusion
  | array items | object fields =>
      obtain ⟨values, -, rfl⟩ := Option.map_eq_some_iff.mp hv
      exact Draft.noConfusion

theorem stable_list {α : Type} {s : Spelling α} (h : Stable s) : Stable (.list s) := by
  rintro xs _ v ⟨hitems⟩ hv
  obtain ⟨values, hvalues, rfl⟩ := Option.map_eq_some_iff.mp hv
  rw [Draft.values?_eq_some_iff] at hvalues
  rw [draft, drafts_eq]
  refine .mk ?_
  clear hv
  induction hitems generalizing values with
  | nil =>
      cases hvalues
      exact .nil
  | cons hx _ ih =>
      cases hvalues with
      | cons hd hvalues => exact .cons (h hx hd) (ih _ hvalues)

theorem stable_option {α : Type} {s : Spelling α} (h : Stable s) : Stable (.option s) := by
  rintro _ _ v (_ | ⟨hd, hx⟩) hv
  · obtain rfl := Option.some.inj hv
    exact .none
  · exact .some (draft_ne_null hd hv) (h hx hv)

/-- Of the fields with one name, only the last is set. -/
theorem filter_setFields {done values : List (String × Json)} (hdone : Table.Ascending done)
    {name : String} {found : List (String × Json)} (hfound : values.filter (·.1 = name) = found)
    (hlength : found.length ≤ 1) : (setFields done values).filter (·.1 = name) =
      if found = [] then done.filter (·.1 = name) else found := by
  induction values generalizing done found with
  | nil =>
      obtain rfl := hfound
      rfl
  | cons v values ih =>
      by_cases hv : v.1 = name
      · subst hv
        rw [List.filter_cons_of_pos (by simp)] at hfound
        obtain rfl := hfound
        have hnil : values.filter (·.1 = v.1) = [] := List.length_eq_zero_iff.mp (by simpa using hlength)
        have h := ih (hdone.set v.1 v.2) hnil (Nat.zero_le _)
        rw [if_pos rfl, Table.filter_set hdone, if_pos rfl] at h
        rw [if_neg (List.cons_ne_nil _ _), hnil]
        exact h
      · rw [List.filter_cons_of_neg (by simpa using hv)] at hfound
        have h := ih (hdone.set v.1 v.2) hfound hlength
        rw [Table.filter_set hdone, if_neg (Ne.symm hv)] at h
        exact h

/-- The field of a name is taken over with its value. -/
theorem stands_value {σ : Type} {blank x : σ} {p : Part σ} (hp : Stable p.spelling)
    {entries : List (String × Draft)} (h : p.Stands blank x (entries.filter (·.1 = p.name)))
    {values : List (String × Json)} (hvalues : List.Forall₂ FieldValue entries values) :
    p.Stands blank x
      (((setFields [] values).map fun f => (f.1, f.2.draft)).filter (·.1 = p.name)) := by
  have hsame : List.Forall₂ FieldValue (entries.filter (·.1 = p.name))
      (values.filter (·.1 = p.name)) :=
    List.rel_filter (fun f v hf => by simp [hf.1]) hvalues
  generalize entries.filter (·.1 = p.name) = es at h hsame
  rw [List.filter_map]
  show p.Stands blank x (((setFields [] values).filter (·.1 = p.name)).map fun f => (f.1, f.2.draft))
  cases h with
  | omitted h =>
      rw [List.forall₂_nil_left_iff] at hsame
      rw [filter_setFields .nil hsame (Nat.zero_le _), if_pos rfl]
      exact .omitted h
  | given h =>
      obtain ⟨⟨name, v⟩, rest, ⟨hname, hv⟩, hrest, hvs⟩ := List.forall₂_cons_left_iff.mp hsame
      rw [List.forall₂_nil_left_iff] at hrest
      obtain rfl : p.name = name := hname
      subst hrest
      rw [filter_setFields .nil hvs (Nat.le_refl _), if_neg (List.cons_ne_nil _ _)]
      exact .given (hp h hv)

theorem stable_record {σ : Type} {blank : σ} {parts : List (Part σ)}
    (h : ∀ p ∈ parts, Stable p.spelling) : Stable (.record blank parts) := by
  rintro x _ v (hentries | hitems) hv
  · obtain ⟨out, hout, rfl⟩ := Option.map_eq_some_iff.mp hv
    obtain ⟨values, hvalues, rfl⟩ := Draft.fieldValues?_eq_some_iff.mp hout
    rw [draft, draftFields_eq]
    exact .object fun p hp => stands_value (h p hp) (hentries p hp) hvalues
  · obtain ⟨values, hvalues, rfl⟩ := Option.map_eq_some_iff.mp hv
    rw [Draft.values?_eq_some_iff] at hvalues
    rw [draft, drafts_eq]
    refine .array ?_
    clear hv
    induction hitems generalizing values with
    | nil =>
        cases hvalues
        exact .nil
    | cons hx _ ih =>
        obtain ⟨hp, hps⟩ := List.forall_mem_cons.mp h
        cases hvalues with
        | cons hd hvalues => exact .cons (hp hx hd) (ih hps _ hvalues)

/-! ## Both directions -/

/-- What is written is a spelling, every spelling is read, and a spelling stays one on its way. -/
structure Faithful {α : Type} (c : Codec α) (s : Spelling α) (P : α → Prop) : Prop where
  reads : Reads c.read s
  spells : ∀ {x : α}, P x → s x (c.write x).draft
  stable : Stable s

namespace Faithful

theorem string : Faithful Codec.string .string fun _ => True :=
  ⟨reads_string, fun _ => .mk _, stable_string⟩

theorem bool : Faithful Codec.bool .bool fun _ => True :=
  ⟨reads_bool, fun _ => .mk _, stable_bool⟩

theorem unsigned64 : Faithful Codec.unsigned64 .unsigned64 fun n => n ≤ CestWriter.Number.limit64 :=
  ⟨reads_unsigned64, fun h => .mk h, stable_unsigned64⟩

theorem any : Faithful Codec.any .any fun v => v.Ordered ∧ v ≠ .null :=
  ⟨reads_any, fun h => .mk h.1.value?_draft, stable_any⟩

variable {α σ : Type} {c : Codec α} {s : Spelling α} {P : α → Prop}

theorem list (h : Faithful c s P) : Faithful c.list (.list s) fun xs => ∀ x ∈ xs, P x where
  reads := reads_list h.reads
  spells := by
    intro xs hxs
    show Spelling.list s xs (Json.array (xs.map c.write)).draft
    rw [draft, drafts_eq, List.map_map]
    refine .mk ?_
    rw [List.forall₂_map_right_iff, List.forall₂_same]
    exact fun x hx => h.spells (hxs x hx)
  stable := stable_list h.stable

theorem option (h : Faithful c s P) (hnull : ∀ {x}, P x → (c.write x).draft ≠ .null) :
    Faithful c.option (.option s) fun o => ∀ x, o = some x → P x where
  reads := reads_option h.reads
  spells := by
    rintro (_ | x) hx
    · exact .none
    · exact .some (hnull (hx x rfl)) (h.spells (hx x rfl))
  stable := stable_option h.stable

end Faithful

/-- A field that is written and read as the part is spelled. -/
structure FieldFaithful {σ : Type} (blank : σ) (parts : List (Part σ)) (P : σ → Prop) (f : Field σ)
    (p : Part σ) : Prop where
  reads : Record.FieldReads parts f p
  spells : ∀ {x : σ}, P x → Record.FieldSpells draft blank x x f p
  stable : Stable p.spelling

section

variable {α σ : Type} {c : Codec α} {s : Spelling α} {Q : α → Prop} {blank : σ} {parts : List (Part σ)}
  {P : σ → Prop} {name : String}

theorem Faithful.field (h : Faithful c s Q) {get : σ → α} {set : σ → α → σ}
    (hget : ∀ x v, get (set x v) = v)
    (hothers : ∀ q ∈ parts, q.name ≠ name → ∀ x v, q.get (set x v) = q.get x)
    (hQ : ∀ {x}, P x → Q (get x)) :
    FieldFaithful blank parts P (c.field name get set) (s.part name get) where
  reads := Record.fieldReads_field h.reads hget hothers
  spells := fun hx => Record.fieldSpells_field (h.spells (hQ hx))
  stable := h.stable

theorem Faithful.optional (h : Faithful c s Q) {get : σ → Option α} {set : σ → Option α → σ}
    (hnull : ∀ {x}, Q x → (c.write x).draft ≠ .null) (hget : ∀ x v, get (set x v) = v)
    (hothers : ∀ q ∈ parts, q.name ≠ name → ∀ x v, q.get (set x v) = q.get x)
    (hQ : ∀ {x}, P x → ∀ a, get x = some a → Q a) (hblank : get blank = none) :
    FieldFaithful blank parts P (c.optional name get set) (s.option.part name get) where
  reads := Record.fieldReads_optional h.reads hget hothers
  spells := fun hx => Record.fieldSpells_optional hblank fun a ha =>
    .some (hnull (hQ hx a ha)) (h.spells (hQ hx a ha))
  stable := stable_option h.stable

theorem FieldFaithful.mono {P' : σ → Prop} {f : Field σ} {p : Part σ}
    (h : FieldFaithful blank parts P f p) (hP : ∀ x, P' x → P x) : FieldFaithful blank parts P' f p :=
  ⟨h.reads, fun hx => h.spells (hP _ hx), h.stable⟩

theorem Record.faithful {r : Record σ}
    (hfields : List.Forall₂ (FieldFaithful r.blank parts P) r.fields parts)
    (hnodup : (parts.map Part.name).Nodup)
    (hext : ∀ {x y : σ}, (∀ p ∈ parts, p.get x = p.get y) → x = y) :
    Faithful r.codec (.record r.blank parts) P := by
  have hfits : r.Fits parts := ⟨hfields.imp fun _ _ h => h.reads, hnodup, hext⟩
  refine ⟨hfits.reads, fun hx => hfits.spells_write (hfields.imp fun _ _ h => h.spells hx), ?_⟩
  exact stable_record (forall_mem_of_forall₂ hfields fun _ _ _ h => h.stable)

theorem Record.write_ne_null (r : Record σ) (x : σ) : (r.codec.write x).draft ≠ .null :=
  Draft.noConfusion

end

end CestWriter.Json
