import CestWriter.Table
import Mathlib.Data.List.Basic
import Mathlib.Data.String.Basic

/-! # Tables with ascending names

Setting a value keeps the names ascending, puts one entry under the name and leaves all others. -/

namespace CestWriter.Table

variable {α : Type} {table : List (String × α)}

/-- Each name comes after those before it, so none stands twice. -/
def Ascending (table : List (String × α)) : Prop :=
  table.Pairwise fun e f => e.1 < f.1

theorem mem_set {name : String} {value : α} {e : String × α} (h : e ∈ set name value table) :
    e = (name, value) ∨ e ∈ table := by
  induction table with
  | nil => exact .inl (List.mem_singleton.mp h)
  | cons f rest ih =>
      rw [set] at h
      split_ifs at h with hlt heq
      · rcases List.mem_cons.mp h with rfl | h
        · exact .inl rfl
        · exact .inr h
      · rcases List.mem_cons.mp h with rfl | h
        · exact .inl rfl
        · exact .inr (.tail _ h)
      · rcases List.mem_cons.mp h with rfl | h
        · exact .inr (.head _)
        · exact (ih h).imp_right (.tail _)

theorem Ascending.set (h : Ascending table) (name : String) (value : α) :
    Ascending (set name value table) := by
  induction table with
  | nil => exact List.pairwise_singleton _ _
  | cons e rest ih =>
      obtain ⟨hfirst, hrest⟩ := List.pairwise_cons.mp h
      rw [Table.set]
      split_ifs with hlt heq
      · refine List.pairwise_cons.mpr ⟨fun f hf => ?_, h⟩
        rcases List.mem_cons.mp hf with rfl | hf
        · exact hlt
        · exact hlt.trans (hfirst f hf)
      · subst heq
        exact List.pairwise_cons.mpr ⟨hfirst, hrest⟩
      · refine List.pairwise_cons.mpr ⟨fun f hf => ?_, ih hrest⟩
        rcases mem_set hf with rfl | hf
        · exact lt_of_le_of_ne (not_lt.mp hlt) (Ne.symm heq)
        · exact hfirst f hf

theorem ascending_ofList (pairs : List (String × α)) : Ascending (ofList pairs) := by
  have hall (table : List (String × α)) (h : Ascending table) :
      Ascending (pairs.foldl (fun table entry => Table.set entry.1 entry.2 table) table) := by
    induction pairs generalizing table with
    | nil => exact h
    | cons pair pairs ih => exact ih _ (h.set pair.1 pair.2)
  exact hall [] .nil

/-- A name after all others goes to the end. -/
theorem set_of_forall_lt {name : String} (h : ∀ e ∈ table, e.1 < name) (value : α) :
    set name value table = table ++ [(name, value)] := by
  induction table with
  | nil => rfl
  | cons e rest ih =>
      obtain ⟨he, hrest⟩ := List.forall_mem_cons.mp h
      rw [set, if_neg (not_lt.mpr he.le), if_neg he.ne', ih hrest, List.cons_append]

theorem filter_set (h : Ascending table) (name : String) (value : α) (other : String) :
    (set name value table).filter (·.1 = other) =
      if other = name then [(name, value)] else table.filter (·.1 = other) := by
  have hnone {rest : List (String × α)} (hr : ∀ e ∈ rest, name < e.1) :
      rest.filter (·.1 = name) = [] := by
    simpa using fun n v he => (hr (n, v) he).ne'
  induction table with
  | nil =>
      rw [set, List.filter_singleton]
      by_cases ho : other = name
      · simp [ho]
      · simp [ho, Ne.symm ho]
  | cons e rest ih =>
      obtain ⟨hfirst, hrest⟩ := List.pairwise_cons.mp h
      rw [set]
      by_cases ho : other = name
      · subst ho
        rw [if_pos rfl]
        split_ifs with hlt heq
        · have hall : ∀ f ∈ e :: rest, other < f.1 :=
            List.forall_mem_cons.mpr ⟨hlt, fun f hf => hlt.trans (hfirst f hf)⟩
          rw [List.filter_cons_of_pos (by simp), hnone hall]
        · rw [List.filter_cons_of_pos (by simp), hnone fun f hf => heq ▸ hfirst f hf]
        · rw [List.filter_cons_of_neg (by simpa using Ne.symm heq), ih hrest, if_pos rfl]
      · rw [if_neg ho]
        split_ifs with hlt heq
        · rw [List.filter_cons_of_neg (by simpa using Ne.symm ho)]
        · rw [List.filter_cons_of_neg (by simpa using Ne.symm ho),
            List.filter_cons_of_neg (by simpa [← heq] using Ne.symm ho)]
        · rw [List.filter_cons, List.filter_cons, ih hrest, if_neg ho]

theorem isSome_lookup_iff {name : String} :
    (table.lookup name).isSome = true ↔ name ∈ table.map (·.1) := by
  rw [List.lookup_isSome_iff, List.mem_map]
  exact exists_congr fun entry => and_congr_right fun _ => beq_iff_eq.trans eq_comm

theorem lookup_of_mem {name : String} {value : α} (hnames : (table.map (·.1)).Nodup)
    (h : (name, value) ∈ table) : table.lookup name = some value := by
  obtain ⟨before, after, rfl⟩ := List.append_of_mem h
  rw [List.map_append, List.nodup_append] at hnames
  refine List.lookup_eq_some_iff.mpr ⟨before, after, rfl, fun entry he => ?_⟩
  rw [bne_iff_ne]
  exact (hnames.2.2 entry.1 (List.mem_map_of_mem he) name (.head _)).symm

theorem lookup_of_filter {name : String} {value : α}
    (h : table.filter (·.1 = name) = [(name, value)]) : table.lookup name = some value := by
  induction table with
  | nil => cases h
  | cons e rest ih =>
      obtain ⟨n, v⟩ := e
      by_cases hn : n = name
      · subst hn
        rw [List.filter_cons_of_pos (by simp)] at h
        obtain rfl := (Prod.mk.inj (List.cons.inj h).1).2
        exact List.lookup_cons_self
      · rw [List.filter_cons_of_neg (by simpa using hn)] at h
        have hb : (name == n) = false := by simpa using Ne.symm hn
        rw [List.lookup_cons, hb]
        exact ih h

end CestWriter.Table
