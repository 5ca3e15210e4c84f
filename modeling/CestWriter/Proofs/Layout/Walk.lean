import CestWriter.Proofs.ClassFile.Placement
import CestWriter.Proofs.Layout.Nesting
import Mathlib.Data.List.Induction
import Mathlib.Algebra.Order.Ring.Int

/-! # The level as a reflected walk

A level that stops at zero stands as high above zero as the walk that goes on below it stands above
its own lowest point. -/

namespace CestWriter

/-! ## Walks -/

/-- The lowest point of a walk from zero, where the walk starts included. -/
def lowest : List Int → Int
  | [] => 0
  | change :: rest => min 0 (change + lowest rest)

/-- How high a walk ends above its lowest point. -/
def reflected (changes : List Int) : Int :=
  changes.sum - lowest changes

/-- How far a walk goes up, whatever it goes down in between. -/
def rise (changes : List Int) : Int :=
  (changes.map (max 0)).sum

theorem lowest_le_sum {past changes : List Int} (h : past <+: changes) : lowest changes ≤ past.sum := by
  induction changes generalizing past with
  | nil => simp [List.prefix_nil.mp h, lowest]
  | cons change changes ih =>
      rw [lowest]
      rcases List.prefix_cons_iff.mp h with rfl | ⟨past, rfl, hrest⟩
      · exact Int.min_le_left 0 _
      · have hle := ih hrest
        rw [List.sum_cons]
        omega

theorem exists_sum_eq_lowest (changes : List Int) :
    ∃ past, past <+: changes ∧ past.sum = lowest changes := by
  induction changes with
  | nil => exact ⟨[], List.nil_prefix, rfl⟩
  | cons change changes ih =>
      obtain ⟨past, hpast, hsum⟩ := ih
      rw [lowest]
      by_cases h : 0 ≤ change + lowest changes
      · exact ⟨[], List.nil_prefix, (Int.min_eq_left h).symm⟩
      · refine ⟨change :: past, List.cons_prefix_cons.mpr ⟨rfl, hpast⟩, ?_⟩
        rw [List.sum_cons, hsum, Int.min_eq_right (by omega)]

theorem lowest_neg_iff {changes : List Int} :
    lowest changes < 0 ↔ ∃ past, past <+: changes ∧ past.sum < 0 := by
  constructor
  · intro h
    obtain ⟨past, hpast, hsum⟩ := exists_sum_eq_lowest changes
    exact ⟨past, hpast, hsum ▸ h⟩
  · rintro ⟨past, hpast, hsum⟩
    exact Int.lt_of_le_of_lt (lowest_le_sum hpast) hsum

theorem lowest_concat (changes : List Int) (change : Int) :
    lowest (changes ++ [change]) = min (lowest changes) (changes.sum + change) := by
  induction changes with
  | nil => simp [lowest]
  | cons first changes ih =>
      rw [List.cons_append, lowest, lowest, ih, List.sum_cons]
      omega

/-- The reflected walk takes each change, but stops at zero. -/
theorem reflected_concat (changes : List Int) (change : Int) :
    reflected (changes ++ [change]) = max 0 (reflected changes + change) := by
  simp only [reflected, lowest_concat, List.sum_append, List.sum_singleton]
  omega

theorem rise_append (changes more : List Int) : rise (changes ++ more) = rise changes + rise more := by
  simp [rise]

theorem rise_nonneg (changes : List Int) : 0 ≤ rise changes := by
  induction changes with
  | nil => exact Int.le_refl 0
  | cons change changes ih =>
      rw [rise, List.map_cons, List.sum_cons]
      exact Int.add_nonneg (Int.le_max_left 0 change) ih

theorem reflected_nonneg (changes : List Int) : 0 ≤ reflected changes :=
  Int.sub_nonneg_of_le (lowest_le_sum (List.prefix_refl changes))

theorem reflected_le_rise (changes : List Int) : reflected changes ≤ rise changes := by
  induction changes using List.reverseRecOn with
  | nil => exact Int.le_refl 0
  | append_singleton changes change ih =>
      have hnonneg := rise_nonneg changes
      have hone : rise [change] = max 0 change := by simp [rise]
      rw [reflected_concat, rise_append, hone]
      omega

/-! ## Levels -/

namespace Level

/-- The level is that of a reflected walk, and it underflowed if the walk itself went below zero. -/
structure Reflects (l : Level) (past : List Int) : Prop where
  depth : (l.depth : Int) = reflected past
  underflowed : l.underflowed = true ↔ lowest past < 0

variable {l : Level} {past : List Int}

theorem reflects_start : start.Reflects [] :=
  ⟨rfl, by decide⟩

theorem Reflects.shift (h : l.Reflects past) (change : Int) :
    (l.shift change).Reflects (past ++ [change]) := by
  have hstart : lowest past ≤ 0 := lowest_le_sum List.nil_prefix
  have hdepth : (l.depth : Int) = past.sum - lowest past := h.depth
  rw [Level.shift]
  split_ifs with hbelow
  · refine ⟨?_, iff_of_true rfl ?_⟩
    · rw [reflected_concat, ← h.depth]
      exact (Int.max_eq_left (Int.le_of_lt hbelow)).symm
    · rw [lowest_concat]
      omega
  · refine ⟨?_, h.underflowed.trans ?_⟩
    · rw [reflected_concat, ← h.depth, Int.toNat_of_nonneg (Int.not_lt.mp hbelow)]
      exact (Int.max_eq_right (Int.not_lt.mp hbelow)).symm
    · rw [lowest_concat]
      omega

end Level

/-- The changes of level that fragments make in order, one before and one after the lines of each. -/
def changes (fs : List Fragment) : List Int :=
  fs.flatMap fun f => [f.before, f.after]

namespace Level

variable {l : Level} {past : List Int}

theorem Reflects.place (h : l.Reflects past) (f : Fragment) :
    (l.place f).2.Reflects (past ++ [f.before, f.after]) := by
  have hboth := (h.shift f.before).shift f.after
  rwa [List.append_assoc] at hboth

theorem Reflects.placeAll (h : l.Reflects past) (fs : List Fragment) :
    (l.placeAll fs).2.Reflects (past ++ changes fs) := by
  induction fs generalizing l past with
  | nil => rwa [changes, List.flatMap_nil, List.append_nil]
  | cons f fs ih =>
      rw [changes, List.flatMap_cons, ← List.append_assoc]
      exact ih (h.place f)

theorem Reflects.base (h : l.Reflects past) (f : Fragment) :
    (l.base f : Int) = reflected (past ++ [f.before]) := by
  rw [base_eq]
  exact (h.shift f.before).depth

/-- Each fragment's lines stand at the height of the walk after the change before them. -/
theorem Reflects.lines (h : l.Reflects past) (fs : List Fragment) :
    (l.placeAll fs).1 = fs.zipIdx.flatMap fun (f, j) =>
      f.lines.map (Line.raise (reflected (past ++ (changes fs).take (2 * j + 1))).toNat) := by
  induction fs generalizing l past with
  | nil => rfl
  | cons f fs ih =>
      have hone : (changes (f :: fs)).take 1 = [f.before] := rfl
      have htwo (j : Nat) : past ++ [f.before, f.after] ++ (changes fs).take (2 * j + 1) =
          past ++ (changes (f :: fs)).take (2 * (j + 1) + 1) := by
        rw [List.append_assoc]
        rfl
      have hdepth : (l.shift f.before).depth = (reflected (past ++ [f.before])).toNat := by
        rw [← (h.shift f.before).depth, Int.toNat_natCast]
      rw [Level.placeAll, ih (h.place f), List.zipIdx_cons, List.flatMap_cons, List.zipIdx_succ,
        List.flatMap_map, Level.place, hdepth]
      simp only [htwo, Nat.mul_zero, Nat.zero_add, hone]

/-- The changes before a fragment, its own two and those after it. -/
theorem changes_eq (fs : List Fragment) {j : Nat} (h : j < fs.length) : changes fs =
    changes (fs.take j) ++ fs[j].before :: fs[j].after :: changes (fs.drop (j + 1)) := by
  induction fs generalizing j with
  | nil => contradiction
  | cons f fs ih =>
      cases j with
      | zero => rfl
      | succ j => exact congrArg (f.before :: f.after :: ·) (ih (Nat.lt_of_succ_lt_succ h))

theorem changes_take (fs : List Fragment) {j : Nat} (h : j < fs.length) :
    (changes fs).take (2 * j + 1) = changes (fs.take j) ++ [fs[j].before] := by
  have hlength : (changes (fs.take j)).length = 2 * j := by
    have hj : min j fs.length = j := Nat.min_eq_left (Nat.le_of_lt h)
    simp [changes, hj, Nat.mul_comm]
  rw [changes_eq fs h, List.take_append, hlength, List.take_of_length_le (by omega)]
  simp

/-- The bounds of a sum in signed arithmetic of 32 bits. -/
def Fits (sum : Int) : Prop :=
  -(2 ^ 31) ≤ sum ∧ sum < 2 ^ 31

/-- As long as the walk does not rise beyond the largest number, no sum does. -/
theorem Reflects.fits (h : l.Reflects past) {change : Int} {rest : List Int} (hdown : -(2 ^ 31) ≤ change)
    (hrise : rise (past ++ change :: rest) < 2 ^ 31) : Fits (l.depth + change) := by
  have hle := reflected_le_rise past
  have hrest := rise_nonneg rest
  have hcons : rise (change :: rest) = max 0 change + rise rest := by simp [rise]
  rw [rise_append, hcons] at hrise
  have hdepth := h.depth
  exact ⟨by omega, by omega⟩

/-- A placed line stands at its own level above the height that the walk has before it. -/
theorem exists_of_mem_placeAll {fs : List Fragment} {placed : Line}
    (h : placed ∈ (start.placeAll fs).1) : ∃ (j : Nat) (hj : j < fs.length), ∃ line ∈ fs[j].lines,
      (placed.level : Int) = line.level + reflected ((changes fs).take (2 * j + 1)) := by
  simp only [reflects_start.lines fs, List.nil_append] at h
  obtain ⟨⟨f, j⟩, hf, hplaced⟩ := List.mem_flatMap.mp h
  obtain ⟨line, hline, rfl⟩ := List.mem_map.mp hplaced
  obtain ⟨hj, rfl⟩ := List.getElem?_eq_some_iff.mp (List.mk_mem_zipIdx_iff_getElem?.mp hf)
  refine ⟨j, hj, line, hline, ?_⟩
  have hnonneg := reflected_nonneg ((changes fs).take (2 * j + 1))
  rw [Line.raise, Int.natCast_add, Int.toNat_of_nonneg hnonneg]

/-- Fragments are placed as a reflected walk has it. The level after them is as high as the walk of
their changes ends above its lowest point, and it underflowed if this walk ever stood below zero. All
lines are there in order, those of each fragment raised to the height that the walk has after the
change before them, which is the level foreseen for it. If no change is below the least number of
signed arithmetic of 32 bits and the rise is not beyond the largest, no sum is out of its range. Nor
is the level of a line beyond the largest number of 64 bits, if the lines' own levels have room for
the height that is added to them. -/
theorem placeAll_reflects (fs : List Fragment) (hdown : ∀ change ∈ changes fs, -(2 ^ 31) ≤ change)
    (hrise : rise (changes fs) < 2 ^ 31)
    (hroom : ∀ (j : Nat) (h : j < fs.length), ∀ line ∈ fs[j].lines,
      line.level + reflected ((changes fs).take (2 * j + 1)) < 2 ^ 64) :
    ((start.placeAll fs).2.depth : Int) = reflected (changes fs) ∧
    ((start.placeAll fs).2.underflowed = true ↔ ∃ past, past <+: changes fs ∧ past.sum < 0) ∧
    (start.placeAll fs).1 = (fs.zipIdx.flatMap fun (f, j) =>
      f.lines.map (Line.raise (reflected ((changes fs).take (2 * j + 1))).toNat)) ∧
    (∀ placed ∈ (start.placeAll fs).1, placed.level < 2 ^ 64) ∧
    ∀ (j : Nat) (h : j < fs.length),
      let l := (start.placeAll (fs.take j)).2
      (l.base fs[j] : Int) = reflected ((changes fs).take (2 * j + 1)) ∧
      (l.place fs[j]).1 = fs[j].lines.map (Line.raise (l.base fs[j])) ∧
      Fits (l.depth + fs[j].before) ∧ Fits ((l.shift fs[j].before).depth + fs[j].after) := by
  have hall := reflects_start.placeAll fs
  have hfits : ∀ placed ∈ (start.placeAll fs).1, placed.level < 2 ^ 64 := by
    intro placed hplaced
    obtain ⟨j, hj, line, hline, hlevel⟩ := exists_of_mem_placeAll hplaced
    have hsum := hroom j hj line hline
    omega
  refine ⟨hall.depth, hall.underflowed.trans lowest_neg_iff, reflects_start.lines fs, hfits,
    fun j hj => ?_⟩
  have hbefore := reflects_start.placeAll (fs.take j)
  rw [List.nil_append] at hbefore
  refine ⟨?_, ?_, ?_, ?_⟩
  · rw [changes_take fs hj]
    exact hbefore.base fs[j]
  · rw [base_eq, Level.place]
  · rw [changes_eq fs hj] at hdown hrise
    exact hbefore.fits (hdown _ (by simp)) hrise
  · rw [changes_eq fs hj, List.append_cons] at hdown hrise
    exact (hbefore.shift _).fits (hdown _ (by simp)) hrise

/-- An end without a start, an opening, two ends at once and another opening. -/
theorem placeAll_reflects_of_unbalanced :
    let opening : Fragment := .block ⟨[⟨0, "if (true) \x7b"⟩], 0, 1⟩
    let ending : Fragment := .block ⟨[⟨0, "\x7d"⟩], -1, 0⟩
    let fs := [ending, opening, .statement "f();", .block ⟨[⟨0, "\x7d\x7d"⟩], -2, 0⟩, opening]
    (∀ change ∈ changes fs, -(2 ^ 31) ≤ change) ∧ rise (changes fs) < 2 ^ 31 ∧
      (∀ (j : Nat) (h : j < fs.length), ∀ line ∈ fs[j].lines,
        line.level + reflected ((changes fs).take (2 * j + 1)) < 2 ^ 64) ∧
      (start.placeAll fs).1.map (·.level) = [0, 0, 1, 0, 0] ∧
      ((start.placeAll fs).2.depth : Int) = (-1) - (-2) ∧ (start.placeAll fs).2.underflowed = true := by
  intro opening ending fs
  have hdown : ∀ change ∈ changes fs, -(2 ^ 31) ≤ change := by decide
  have hroom : ∀ (j : Nat) (h : j < fs.length), ∀ line ∈ fs[j].lines,
      line.level + reflected ((changes fs).take (2 * j + 1)) < 2 ^ 64 := by decide
  obtain ⟨hdepth, hflag, -, -⟩ := placeAll_reflects fs hdown (by decide) hroom
  refine ⟨hdown, by decide, hroom, by decide, hdepth, hflag.mpr ?_⟩
  exact ⟨[-1], by decide, by decide⟩

end Level

end CestWriter
