import CestWriter.Proofs.Php.Loop

/-! # Runs of a loop, turn by turn -/

namespace CestWriter.Php

variable {σ : Type}

/-- One turn after another. -/
def inTurn (turns : List (State σ → Option (State σ))) (s : State σ) : Option (State σ) :=
  turns.foldlM (fun s turn => turn s) s

namespace Machine

variable {effect : Effect σ} {code code' rest : List Instruction} {l l' l'' : Locals}
variable {s s' s'' : State σ}

/-! ## Runs of a part of the code -/

/-- Running `code` leads from locals and a state to others, whatever stands behind it and whatever
loops are open. -/
def Leads (effect : Effect σ) (code : List Instruction) (l : Locals) (s : State σ) (l' : Locals)
    (s' : State σ) : Prop :=
  ∀ rest frames t, (Machine.mk rest frames l' s').Halts effect t →
    (Machine.mk (code ++ rest) frames l s).Halts effect t

namespace Leads

theorem nil : Leads effect [] l s l s :=
  fun _ _ _ h => h

theorem append (h : Leads effect code l s l' s') (h' : Leads effect code' l' s' l'' s'') :
    Leads effect (code ++ code') l s l'' s'' := by
  intro rest frames t ht
  rw [List.append_assoc]
  exact h _ frames t (h' rest frames t ht)

/-- A line that does not depend on the lines behind it. -/
theorem one {x : Instruction} (h : ∀ rest frames, (Machine.mk (x :: rest) frames l s).step effect =
    some ⟨rest, frames, l', s'⟩) : Leads effect [x] l s l' s' :=
  fun rest frames _ ht => .of_step (h rest frames) ht

theorem setTimes (n : Int) : Leads effect [.setTimes n] l s { l with times := n } s :=
  one fun _ _ => rfl

theorem setCollection (name : String) :
    Leads effect [.setCollection name] l s { l with collection := s.vars name } s :=
  one fun _ _ => rfl

theorem bind {name : String} {items : List Value} {v : Value} (hl : l.collection = .list items)
    (hv : items[l.c.toNat]? = some v) : Leads effect [.bind name] l s l (s.assign name v) :=
  one fun rest frames => by simp [step, hl, hv]

theorem perform (lines : List String) : Leads effect (lines.map .perform) l s l
    (lines.foldl (fun s line => s.perform effect line) s) := by
  induction lines generalizing s with
  | nil => exact nil
  | cons line lines ih =>
      have hline : Leads effect [.perform line] l s l (s.perform effect line) := one fun _ _ => rfl
      exact hline.append ih

/-- A run that is led from the start to the end halts there. -/
theorem halts (h : Leads effect code l s l' s') : (Machine.mk code [] l s).Halts effect s' := by
  simpa using h [] [] s' (halts_nil l' s')

end Leads

/-! ## Finding the end of a loop -/

/-- Every loop in the code is closed in it. -/
def Balanced (code : List Instruction) : Prop :=
  ∀ depth rest, skip depth (code ++ rest) = skip depth rest

theorem Balanced.nil : Balanced [] :=
  fun _ _ => rfl

theorem Balanced.append (h : Balanced code) (h' : Balanced code') : Balanced (code ++ code') := by
  intro depth rest
  rw [List.append_assoc, h, h']

theorem Balanced.one {x : Instruction} (hl : ∀ b, x ≠ .loop b) (hc : x ≠ .close) : Balanced [x] := by
  intro depth rest
  cases x with
  | loop b => exact (hl b rfl).elim
  | close => exact (hc rfl).elim
  | _ => cases depth <;> rfl

theorem Balanced.perform (lines : List String) : Balanced (lines.map .perform) := by
  induction lines with
  | nil => exact .nil
  | cons line lines ih =>
      have hline : Balanced [.perform line] := .one (by simp) (by simp)
      exact hline.append ih

theorem Balanced.loop {b : Bound} (h : Balanced code) : Balanced (.loop b :: code ++ [.close]) := by
  intro depth rest
  have hcode := h (depth + 1) (.close :: rest)
  cases depth <;> simpa [skip] using hcode

/-! ## Whole loops -/

/-- What is run of a loop depends on its first test. -/
theorem Leads.of_turn {b : Bound} {start : Locals} (hcode : Balanced code)
    (h : ∀ rest frames t, (Machine.mk rest frames l' s').Halts effect t →
      ∃ m, turn ⟨b, code ++ .close :: rest⟩ (some rest) frames { start with c := 0 } s = some m ∧
        m.Halts effect t) :
    Leads effect (.loop b :: code ++ [.close]) start s l' s' := by
  intro rest frames t ht
  obtain ⟨m, hm, hhalts⟩ := h rest frames t ht
  have hskip : skip 0 (code ++ .close :: rest) = some rest := hcode 0 _
  refine .of_step ?_ hhalts
  simpa [step, hskip] using hm

/-- A loop whose bound is the number of turns, and whose body leaves the locals alone, takes one
turn after another. -/
theorem Leads.turns {b : Bound} {turns : List (State σ → Option (State σ))} (hcode : Balanced code)
    (htest : ∀ c : Nat, b.test { l with c := c } = some (decide (c < turns.length)))
    (hbody : ∀ (i : Nat) turn, turns[i]? = some turn → ∀ s s', turn s = some s' →
      Leads effect code { l with c := i } s { l with c := i } s')
    (h : inTurn turns s = some s') :
    Leads effect (.loop b :: code ++ [.close]) l s { l with c := turns.length } s' := by
  apply Leads.of_turn hcode
  intro rest frames t ht
  suffices hall : ∀ k i s, i + k = turns.length → inTurn (turns.drop i) s = some s' →
      ∃ m, turn ⟨b, code ++ .close :: rest⟩ (some rest) frames { l with c := i } s = some m ∧
        m.Halts effect t from hall turns.length 0 s (by omega) h
  -- The turns still to come go down; the test holds as long as one is left.
  intro k
  induction k with
  | zero =>
      intro i s hi h
      have hdone : turns.drop i = [] := List.drop_eq_nil_of_le (by omega)
      have hs : s = s' := by simpa [hdone, inTurn] using h
      have hlength : i = turns.length := by omega
      refine ⟨⟨rest, frames, { l with c := turns.length }, s'⟩, ?_, ht⟩
      simp [turn, htest, hlength, hs]
  | succ k ih =>
      intro i s hi h
      have hlt : i < turns.length := by omega
      rw [List.drop_eq_getElem_cons hlt, inTurn, List.foldlM_cons] at h
      obtain ⟨mid, hmid, h⟩ := Option.bind_eq_some_iff.mp h
      obtain ⟨m, hm, hhalts⟩ := ih (i + 1) mid (by omega) h
      refine ⟨⟨code ++ .close :: rest, ⟨b, code ++ .close :: rest⟩ :: frames, { l with c := i }, s⟩,
        by simp [turn, htest, hlt], ?_⟩
      refine hbody i _ (List.getElem?_eq_getElem hlt) s mid hmid _ _ t (.of_step ?_ hhalts)
      simpa [step] using hm

/-- A loop whose first turn leaves it with a failing test takes no second one. -/
theorem Leads.once {b : Bound} (hcode : Balanced code)
    (htest : b.test { l with c := 0 } = some true)
    (hbody : Leads effect code { l with c := 0 } s l' s')
    (hlast : b.test { l' with c := l'.c + 1 } = some false) :
    Leads effect (.loop b :: code ++ [.close]) l s { l' with c := l'.c + 1 } s' := by
  apply Leads.of_turn hcode
  intro rest frames t ht
  refine ⟨⟨code ++ .close :: rest, ⟨b, code ++ .close :: rest⟩ :: frames, { l with c := 0 }, s⟩,
    by simp only [turn, htest], hbody _ _ t (.of_step ?_ ht)⟩
  simp [step, turn, hlast]

end Machine

end CestWriter.Php
