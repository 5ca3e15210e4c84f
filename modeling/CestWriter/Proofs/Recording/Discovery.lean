import Mathlib.Data.List.Nodup
import Mathlib.Data.List.Perm.Subperm

/-! # Breadth-first discovery

Items lead to further items. From some roots on, a queue meets every item that can be reached. The
order in which it meets them is that of their first places in what has been noted: the roots, and
then, item after item, what the items lead to. -/

namespace CestWriter

variable {α : Type} {next : α → List α} {roots : List α}

/-! ## What can be reached -/

/-- What the roots lead to, the roots included. -/
inductive Reaches (next : α → List α) (roots : List α) : α → Prop
  | root {x : α} (h : x ∈ roots) : Reaches next roots x
  | onward {x y : α} (h : Reaches next roots x) (hy : y ∈ next x) : Reaches next roots y

/-- What the roots lead to in no more than `n` steps. -/
inductive ReachesWithin (next : α → List α) (roots : List α) : Nat → α → Prop
  | root {n : Nat} {x : α} (h : x ∈ roots) : ReachesWithin next roots n x
  | onward {n : Nat} {x y : α} (h : ReachesWithin next roots n x) (hy : y ∈ next x) :
    ReachesWithin next roots (n + 1) y

theorem ReachesWithin.reaches {n : Nat} {x : α} (h : ReachesWithin next roots n x) :
    Reaches next roots x := by
  induction h with
  | root h => exact .root h
  | onward _ hy ih => exact .onward ih hy

theorem Reaches.mono {roots' : List α} (hr : ∀ x ∈ roots, x ∈ roots') {x : α}
    (h : Reaches next roots x) : Reaches next roots' x := by
  induction h with
  | root h => exact .root (hr _ h)
  | onward _ hy ih => exact .onward ih hy

/-- What several lists of roots lead to is what one of them leads to. -/
theorem reaches_flatMap {β : Type} {f : β → List α} {xs : List β} {x : α} :
    Reaches next (xs.flatMap f) x ↔ ∃ y ∈ xs, Reaches next (f y) x := by
  constructor
  · intro h
    induction h with
    | root h =>
        obtain ⟨y, hy, hx⟩ := List.mem_flatMap.mp h
        exact ⟨y, hy, .root hx⟩
    | onward _ hz ih =>
        obtain ⟨y, hy, h⟩ := ih
        exact ⟨y, hy, .onward h hz⟩
  · rintro ⟨y, hy, h⟩
    exact h.mono fun z hz => List.mem_flatMap.mpr ⟨y, hy, hz⟩

/-! ## First places -/

variable [DecidableEq α]

theorem nodup_eraseDups (xs : List α) : xs.eraseDups.Nodup := by
  induction h : xs.length using Nat.strongRecOn generalizing xs with
  | ind n ih =>
      cases xs with
      | nil => simp
      | cons x xs =>
          have hlength : (xs.filter fun y => !y == x).length < n := by
            have := List.length_filter_le (fun y => !y == x) xs
            simp only [List.length_cons] at h
            omega
          rw [List.eraseDups_cons, List.nodup_cons]
          exact ⟨by simp, ih _ hlength _ rfl⟩

theorem eraseDups_prefix_append (xs ys : List α) : xs.eraseDups <+: (xs ++ ys).eraseDups := by
  rw [List.eraseDups_append]
  exact List.prefix_append ..

/-- What has been found keeps its place. -/
theorem getElem?_eraseDups_append {xs ys : List α} (hp : xs <+: ys) {n : Nat} {x : α}
    (h : xs.eraseDups[n]? = some x) : ys.eraseDups[n]? = some x := by
  obtain ⟨rest, rfl⟩ := hp
  obtain ⟨later, hlater⟩ := eraseDups_prefix_append xs rest
  obtain ⟨hn, -⟩ := List.getElem?_eq_some_iff.mp h
  rw [← hlater, List.getElem?_append_left hn, h]

/-- An item is added at the end unless it is there already. -/
theorem eraseDups_concat (xs : List α) (x : α) :
    (xs ++ [x]).eraseDups = if x ∈ xs then xs.eraseDups else xs.eraseDups ++ [x] := by
  rw [List.eraseDups_append]
  by_cases h : x ∈ xs <;> simp [List.removeAll, List.eraseDups_cons, h]

/-! ## The order of a queue -/

/-- An order in which a queue meets items, from the roots on. -/
structure BreadthFirst (next : α → List α) (roots order : List α) : Prop where
  /-- Nothing is met twice. -/
  nodup : order.Nodup
  /-- Just what can be reached is met. -/
  mem_iff (x : α) : x ∈ order ↔ Reaches next roots x
  /-- Items stand in the order of their first places in the roots and in what the items lead to. -/
  order_eq : order = (roots ++ order.flatMap next).eraseDups
  /-- Those within fewer steps come first. -/
  layered (n : Nat) : ∃ front, front <+: order ∧ ∀ x, x ∈ front ↔ ReachesWithin next roots n x

namespace BreadthFirst

variable {order : List α}

/-- A list that has the first places of what it leads to itself has all that can be reached. -/
theorem mem_of_reaches (h : order = (roots ++ order.flatMap next).eraseDups) {x : α}
    (hx : Reaches next roots x) : x ∈ order := by
  induction hx with
  | root hx =>
      rw [h, List.mem_eraseDups]
      exact List.mem_append_left _ hx
  | onward _ hy ih =>
      rw [h, List.mem_eraseDups]
      exact List.mem_append_right _ (List.mem_flatMap.mpr ⟨_, ih, hy⟩)

/-- The items within `n + 1` steps are the roots and what those within `n` steps lead to, and these
are noted before all others. -/
theorem of_order_eq (h : order = (roots ++ order.flatMap next).eraseDups)
    (hr : ∀ x ∈ order, Reaches next roots x) : BreadthFirst next roots order where
  nodup := h ▸ nodup_eraseDups _
  mem_iff x := ⟨hr x, mem_of_reaches h⟩
  order_eq := h
  layered n := by
    induction n with
    | zero =>
        refine ⟨roots.eraseDups, ?_, fun x => ?_⟩
        · conv_rhs => rw [h]
          exact eraseDups_prefix_append _ _
        · rw [List.mem_eraseDups]
          exact ⟨.root, fun hx => by cases hx; assumption⟩
    | succ n ih =>
        obtain ⟨front, ⟨back, hsplit⟩, hfront⟩ := ih
        refine ⟨(roots ++ front.flatMap next).eraseDups, ?_, fun x => ?_⟩
        · conv_rhs => rw [h, ← hsplit, List.flatMap_append, ← List.append_assoc]
          exact eraseDups_prefix_append _ _
        · rw [List.mem_eraseDups, List.mem_append, List.mem_flatMap]
          constructor
          · rintro (hx | ⟨y, hy, hx⟩)
            · exact .root hx
            · exact .onward ((hfront y).mp hy) hx
          · intro hx
            cases hx with
            | root hx => exact .inl hx
            | onward hy hx => exact .inr ⟨_, (hfront _).mpr hy, hx⟩

end BreadthFirst

/-! ## The queue at work -/

/-- What is noted while items are taken from the `k`-th on, each with what it leads to. -/
def explore (next : α → List α) : Nat → Nat → List α → List α
  | 0, _, noted => noted
  | fuel + 1, k, noted =>
    match noted.eraseDups[k]? with
    | none => noted
    | some x => explore next fuel (k + 1) (noted ++ next x)

namespace explore

theorem prefix_explore (fuel k : Nat) (noted : List α) : noted <+: explore next fuel k noted := by
  induction fuel generalizing k noted with
  | zero => exact List.prefix_rfl
  | succ fuel ih =>
      rw [explore]
      split
      · exact List.prefix_rfl
      · exact (List.prefix_append ..).trans (ih ..)

theorem reaches {fuel k : Nat} {noted : List α} (h : ∀ x ∈ noted, Reaches next roots x) :
    ∀ x ∈ explore next fuel k noted, Reaches next roots x := by
  induction fuel generalizing k noted with
  | zero => exact h
  | succ fuel ih =>
      rw [explore]
      split
      · exact h
      · next y hy =>
          have hmem : y ∈ noted := List.mem_eraseDups.mp (List.mem_of_getElem? hy)
          refine ih fun x hx => ?_
          rcases List.mem_append.mp hx with hx | hx
          · exact h x hx
          · exact .onward (h y hmem) hx

/-- Of `k` items taken so far, everything that they lead to is noted after the roots. -/
theorem eq_append {fuel k bound : Nat} {noted : List α} (hfuel : bound ≤ k + fuel)
    (hbound : (explore next fuel k noted).eraseDups.length ≤ bound)
    (h : noted = roots ++ (noted.eraseDups.take k).flatMap next) :
    explore next fuel k noted =
      roots ++ (explore next fuel k noted).eraseDups.flatMap next := by
  induction fuel generalizing k noted with
  | zero =>
      rw [explore] at hbound ⊢
      rwa [List.take_of_length_le (by omega)] at h
  | succ fuel ih =>
      rw [explore] at hbound ⊢
      split at hbound
      · next hk =>
          rw [List.take_of_length_le (List.getElem?_eq_none_iff.mp hk)] at h
          simpa only [hk] using h
      · next x hx =>
          -- The items taken so far keep their places, so just the one at `k` is new among them.
          refine ih (by omega) hbound ?_
          obtain ⟨hk, hget⟩ := List.getElem?_eq_some_iff.mp hx
          have htake : (noted ++ next x).eraseDups.take (k + 1) = noted.eraseDups.take k ++ [x] := by
            rw [List.eraseDups_append, List.take_append_of_le_length hk, ← hget,
              List.take_append_getElem hk]
          rw [htake, List.flatMap_append, ← List.append_assoc, ← h]
          simp

end explore

theorem length_le_of_nodup {xs : List Nat} {bound : Nat} (h : xs.Nodup) (hlt : ∀ x ∈ xs, x < bound) :
    xs.length ≤ bound := by
  have hsubset : xs ⊆ List.range bound := fun x hx => List.mem_range.mpr (hlt x hx)
  simpa using (h.subperm hsubset).length_le

/-- Among `bound` places there are no more than `bound` items to take. -/
theorem length_explore_le {next : Nat → List Nat} {roots : List Nat} {bound : Nat}
    (hlt : ∀ x, Reaches next roots x → x < bound) (fuel : Nat) :
    (explore next fuel 0 roots).eraseDups.length ≤ bound :=
  length_le_of_nodup (nodup_eraseDups _) fun x hx =>
    hlt x (explore.reaches (fun _ => .root) x (List.mem_eraseDups.mp hx))

theorem breadthFirst_explore {next : Nat → List Nat} {roots : List Nat} {bound : Nat}
    (hlt : ∀ x, Reaches next roots x → x < bound) :
    BreadthFirst next roots (explore next bound 0 roots).eraseDups := by
  refine .of_order_eq ?_ fun x hx => explore.reaches (fun _ => .root) x (List.mem_eraseDups.mp hx)
  have hnoted : explore next bound 0 roots =
      roots ++ (explore next bound 0 roots).eraseDups.flatMap next :=
    explore.eq_append (Nat.le_add_left bound 0) (length_explore_le hlt bound) (by simp)
  exact congrArg List.eraseDups hnoted

end CestWriter
