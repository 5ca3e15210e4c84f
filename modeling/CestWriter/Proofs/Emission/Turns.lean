import CestWriter.Proofs.Emission.Loops

/-! # Which loops take the recorded turns

All loops of a method count in the same variable. A loop in which no other loop stands takes the
recorded number of turns. A loop around another finds the counter where the inner loop left it. -/

namespace CestWriter.Loops

open Php Php.Machine

variable {σ : Type} {w : Step → List String} {effect : Effect σ} {p body : Loops}
variable {l : Locals} {s s' : State σ}

theorem balanced_code (p : Loops) : Balanced (p.code w) := by
  induction p with
  | done => exact .nil
  | plain t _ next ih => exact (Balanced.perform _).append ih
  | times head body tail next ihb ihn =>
      have hset : Balanced [.setTimes head.count] := .one (by simp) (by simp)
      simpa [code] using hset.append ((Balanced.loop (b := .times) ihb).append ihn)
  | forEach head body tail next ihb ihn =>
      have hset : Balanced [.setCollection head.step.target] := .one (by simp) (by simp)
      have hbind : Balanced [.bind head.step.value] := .one (by simp) (by simp)
      simpa [code] using hset.append ((Balanced.loop (b := .collection) (hbind.append ihb)).append ihn)

/-! ## Loops without loops in them -/

theorem leads_plain (hp : p.isPlain = true) (h : p.recorded w effect s = some s') :
    Leads effect (p.code w) l s l s' := by
  induction p generalizing s with
  | done =>
      obtain rfl := Option.some.inj h
      exact .nil
  | plain t _ next ih => exact (Leads.perform (w t)).append (ih hp h)
  | times | forEach => simp [isPlain] at hp

theorem leads_times {n : Int} (hb : body.isPlain = true)
    (h : inTurn (List.replicate n.toNat (body.recorded w effect)) s = some s') :
    Leads effect (.setTimes n :: .loop .times :: body.code w ++ [.close]) l s
      { l with times := n, c := n.toNat } s' := by
  have htest : ∀ c : Nat, Bound.times.test { l with times := n, c := c } =
      some (decide (c < (List.replicate n.toNat (body.recorded w effect)).length)) := by
    intro c
    simp only [Bound.test, List.length_replicate, Option.some.injEq, decide_eq_decide]
    omega
  have hloop := Leads.turns (l := { l with times := n }) (balanced_code body) htest
    (fun i turn hi s s' hs => by
      obtain rfl := List.eq_of_mem_replicate (List.mem_of_getElem? hi)
      exact leads_plain hb hs) h
  simpa using (Leads.setTimes n).append hloop

theorem leads_forEach {collection item : String} {items : List Value} (hb : body.isPlain = true)
    (hs : s.vars collection = .list items)
    (h : inTurn (items.map fun v s => body.recorded w effect (s.assign item v)) s = some s') :
    Leads effect (.setCollection collection :: .loop .collection :: .bind item ::
      body.code w ++ [.close]) l s { l with collection := .list items, c := items.length } s' := by
  let visit (v : Value) (s : State σ) := body.recorded w effect (s.assign item v)
  have hcode : Balanced (.bind item :: body.code w) :=
    (Balanced.one (x := .bind item) (by simp) (by simp)).append (balanced_code body)
  have htest : ∀ c : Nat, Bound.collection.test { l with collection := .list items, c := c } =
      some (decide (c < (items.map visit).length)) := by
    intro c
    simp [Bound.test]
  have hloop := Leads.turns (l := { l with collection := .list items }) hcode htest
    (fun i _ hi s s' hs => by
      rw [List.getElem?_map] at hi
      obtain ⟨v, hv, rfl⟩ := Option.map_eq_some_iff.mp hi
      exact (Leads.bind rfl hv).append (leads_plain hb hs)) h
  have hset : Leads effect [.setCollection collection] l s
      { l with collection := .list items } s := hs ▸ .setCollection collection
  simpa using hset.append hloop

/-- A program of which no loop stands in another runs as it is recorded. -/
theorem leads_flat (hp : p.isFlat = true) (h : p.recorded w effect s = some s') (l : Locals) :
    ∃ l', Leads effect (p.code w) l s l' s' := by
  induction p generalizing s l with
  | done =>
      obtain rfl := Option.some.inj h
      exact ⟨l, .nil⟩
  | plain t _ next ih =>
      obtain ⟨l', hnext⟩ := ih hp h l
      exact ⟨l', (Leads.perform (w t)).append hnext⟩
  | times head body tail next _ ihn =>
      obtain ⟨hb, hn⟩ := Bool.and_eq_true_iff.mp hp
      obtain ⟨mid, hmid, h⟩ := Option.bind_eq_some_iff.mp h
      have hloop := leads_times (l := l) hb hmid
      obtain ⟨l', hnext⟩ := ihn hn h _
      exact ⟨l', by simpa [code] using hloop.append hnext⟩
  | forEach head body tail next _ ihn =>
      obtain ⟨hb, hn⟩ := Bool.and_eq_true_iff.mp hp
      rw [recorded] at h
      split at h
      · simp at h
      · next items hitems =>
          obtain ⟨mid, hmid, h⟩ := Option.bind_eq_some_iff.mp h
          have hloop := leads_forEach (l := l) hb hitems hmid
          obtain ⟨l', hnext⟩ := ihn hn h _
          exact ⟨l', by simpa [code] using hloop.append hnext⟩

/-! ## Lists of two

The rest looks at programs with two in the place of every count, on lists of two whose elements are
such lists again, as deep as the visits of the program go. -/

/-- A list of two such lists, and so on, `n` levels deep. -/
def IsDeep : Nat → Value → Prop
  | 0, _ => True
  | n + 1, v => ∃ a b, v = .list [a, b] ∧ IsDeep n a ∧ IsDeep n b

theorem IsDeep.mono {m n : Nat} {v : Value} (hle : m ≤ n) (h : IsDeep n v) : IsDeep m v := by
  induction m generalizing n v with
  | zero => trivial
  | succ m ih =>
      obtain ⟨n, rfl⟩ : ∃ k, n = k + 1 := ⟨n - 1, by omega⟩
      obtain ⟨a, b, rfl, ha, hb⟩ := h
      exact ⟨a, b, rfl, ih (by omega) ha, ih (by omega) hb⟩

theorem exists_isDeep (n : Nat) : ∃ v, IsDeep n v := by
  induction n with
  | zero => exact ⟨.scalar "", trivial⟩
  | succ n ih =>
      obtain ⟨v, hv⟩ := ih
      exact ⟨.list [v, v], v, v, rfl, hv, hv⟩

/-- All stored variables hold deep lists. -/
def HoldsDeep (n : Nat) (s : State σ) : Prop :=
  ∀ name, IsDeep n (s.vars name)

theorem HoldsDeep.mono {m n : Nat} (hle : m ≤ n) (h : HoldsDeep n s) : HoldsDeep m s :=
  fun name => (h name).mono hle

theorem HoldsDeep.assign {n : Nat} {name : String} {v : Value} (h : HoldsDeep n s)
    (hv : IsDeep n v) : HoldsDeep n (s.assign name v) := by
  intro other
  by_cases he : other = name
  · simpa [State.assign, he] using hv
  · simpa [State.assign, he] using h other

/-- Performed lines that change nothing. -/
def inert : Effect Unit :=
  fun _ vars outside => (vars, outside)

theorem perform_inert (lines : List String) (s : State Unit) :
    lines.foldl (fun s line => s.perform inert line) s =
      { s with performed := s.performed ++ lines } := by
  induction lines generalizing s with
  | nil => simp
  | cons line lines ih =>
      rw [List.foldl_cons, ih]
      simp [State.perform, inert]

/-! ## What is recorded -/

/-- How deep the visits go into the stored lists, at most. -/
def visits : Loops → Nat
  | done => 0
  | plain _ _ next => next.visits
  | times _ body _ next => 2 * body.visits + next.visits
  | forEach _ body _ next => 2 * (body.visits + 1) + next.visits

/-- The number of lines that two turns of every loop perform. -/
def due (w : Step → List String) : Loops → Nat
  | done => 0
  | plain s _ next => (w s).length + next.due w
  | times _ body _ next | forEach _ body _ next => 2 * body.due w + next.due w

/-- A run of `n` lines that leaves lists of depth `k`. -/
structure Performs (n k : Nat) (s s' : State Unit) : Prop where
  deep : HoldsDeep k s'
  length : s'.performed.length = s.performed.length + n

theorem Performs.trans {m n j k : Nat} {s mid s' : State Unit} (h : Performs m j s mid)
    (h' : Performs n k mid s') : Performs (m + n) k s s' :=
  ⟨h'.deep, by rw [h'.length, h.length, Nat.add_assoc]⟩

theorem Performs.lines {k : Nat} {s : State Unit} (lines : List String) (hs : HoldsDeep k s) :
    Performs lines.length k s { s with performed := s.performed ++ lines } :=
  ⟨hs, by simp⟩

theorem Performs.assign {k : Nat} {name : String} {v : Value} {s : State Unit}
    (hs : HoldsDeep k s) (hv : IsDeep k v) : Performs 0 k s (s.assign name v) :=
  ⟨hs.assign hv, rfl⟩

section

variable {s : State Unit}

theorem two_times {k : Nat} (hbody : ∀ k s, HoldsDeep (body.visits + k) s → ∃ s',
      body.twice.recorded w inert s = some s' ∧ Performs (body.due w) k s s')
    (hs : HoldsDeep (2 * body.visits + k) s) :
    ∃ s', inTurn (List.replicate 2 (body.twice.recorded w inert)) s = some s' ∧
      Performs (2 * body.due w) k s s' := by
  obtain ⟨s₁, h₁, hp₁⟩ := hbody (body.visits + k) s (hs.mono (by omega))
  obtain ⟨s₂, h₂, hp₂⟩ := hbody k s₁ hp₁.deep
  refine ⟨s₂, by simp [inTurn, List.replicate, h₁, h₂], ?_⟩
  simpa [Nat.two_mul] using hp₁.trans hp₂

theorem two_forEach {k : Nat} {a b : Value} (item : String)
    (hbody : ∀ k s, HoldsDeep (body.visits + k) s → ∃ s',
      body.twice.recorded w inert s = some s' ∧ Performs (body.due w) k s s')
    (hs : HoldsDeep (2 * (body.visits + 1) + k) s)
    (ha : IsDeep (2 * body.visits + 1 + k) a) (hb : IsDeep (2 * body.visits + 1 + k) b) :
    ∃ s', inTurn ([a, b].map fun v s => body.twice.recorded w inert (s.assign item v)) s = some s' ∧
      Performs (2 * body.due w) k s s' := by
  have hassign₁ : Performs 0 (body.visits + (body.visits + k)) s (s.assign item a) :=
    .assign (hs.mono (by omega)) (ha.mono (by omega))
  obtain ⟨s₁, h₁, hp₁⟩ := hbody (body.visits + k) _ hassign₁.deep
  have hassign₂ : Performs 0 (body.visits + k) s₁ (s₁.assign item b) :=
    .assign hp₁.deep (hb.mono (by omega))
  obtain ⟨s₂, h₂, hp₂⟩ := hbody k _ hassign₂.deep
  refine ⟨s₂, by simp [inTurn, h₁, h₂], ?_⟩
  simpa [Nat.two_mul] using (hassign₁.trans hp₁).trans (hassign₂.trans hp₂)

/-- The recorded meaning takes two turns of every loop. -/
theorem recorded_twice (p : Loops) (k : Nat) (s : State Unit) (hs : HoldsDeep (p.visits + k) s) :
    ∃ s', p.twice.recorded w inert s = some s' ∧ Performs (p.due w) k s s' := by
  induction p generalizing k s with
  | done => exact ⟨s, rfl, hs.mono (by omega), rfl⟩
  | plain t h next ih =>
      have hline := Performs.lines (w t) hs
      obtain ⟨s', hs', hp⟩ := ih k _ hline.deep
      exact ⟨s', by simpa [twice, recorded, perform_inert] using hs', hline.trans hp⟩
  | times head body tail next ihb ihn =>
      simp only [visits] at hs
      obtain ⟨mid, hmid, hp⟩ := two_times ihb (k := next.visits + k) (hs.mono (by omega))
      obtain ⟨s', hs', hp'⟩ := ihn k mid hp.deep
      exact ⟨s', Option.bind_eq_some_iff.mpr ⟨mid, hmid, hs'⟩, hp.trans hp'⟩
  | forEach head body tail next ihb ihn =>
      simp only [visits] at hs
      obtain ⟨a, b, hlist, ha, hb⟩ : IsDeep ((2 * body.visits + 1 + (next.visits + k)) + 1)
        (s.vars head.step.target) := (hs head.step.target).mono (by omega)
      obtain ⟨mid, hmid, hp⟩ := two_forEach head.step.value ihb (k := next.visits + k)
        (hs.mono (by omega)) ha hb
      obtain ⟨s', hs', hp'⟩ := ihn k mid hp.deep
      refine ⟨s', ?_, hp.trans hp'⟩
      simp only [twice, recorded, hlist]
      exact Option.bind_eq_some_iff.mpr ⟨mid, hmid, hs'⟩

end

/-! ## What is run -/

/-- The number of lines that are performed instead: a loop around another takes one turn. -/
def spent (w : Step → List String) : Loops → Nat
  | done => 0
  | plain s _ next => (w s).length + next.spent w
  | times _ body _ next | forEach _ body _ next =>
    (if body.isPlain then 2 else 1) * body.spent w + next.spent w

theorem spent_le_due (p : Loops) : p.spent w ≤ p.due w := by
  induction p with
  | done => simp [spent, due]
  | plain t _ next ih =>
      simp only [spent, due]
      omega
  | times _ body _ next ihb ihn | forEach _ body _ next ihb ihn =>
      simp only [spent, due]
      split <;> omega

theorem spent_eq_due (hp : p.isPlain = true) : p.spent w = p.due w := by
  induction p with
  | done => rfl
  | plain t _ next ih => simp only [spent, due, ih hp]
  | times | forEach => simp [isPlain] at hp

theorem weight_le_due (p : Loops) : p.weight w ≤ p.due w := by
  induction p with
  | done => simp [weight, due]
  | plain t _ next ih =>
      simp only [weight, due]
      omega
  | times _ body _ next ihb ihn | forEach _ body _ next ihb ihn =>
      simp only [weight, due]
      omega

/-- A busy program in which a loop stands in another performs less than is recorded. -/
theorem spent_lt_due (hf : p.isFlat = false) (hb : p.isBusy w = true) : p.spent w < p.due w := by
  induction p with
  | done => simp [isFlat] at hf
  | plain t _ next ih =>
      have hnext := ih hf hb
      simp only [spent, due]
      omega
  | times _ body _ next ihb ihn | forEach _ body _ next ihb ihn =>
      simp only [isBusy, Bool.and_eq_true, bne_iff_ne] at hb
      obtain ⟨hweight, hnext⟩ := hb
      have hle := weight_le_due (w := w) body
      have hspent := spent_le_due (w := w) body
      have hspent' := spent_le_due (w := w) next
      simp only [spent, due]
      cases hplain : body.isPlain with
      | false =>
          simp only [Bool.false_eq_true, if_false]
          omega
      | true =>
          have hflat : next.isFlat = false := by simpa [isFlat, hplain] using hf
          have hlt := ihn hflat hnext
          simp only [if_true]
          omega

/-- The locals keep a loop going for two turns. -/
def IsTwo (l : Locals) (b : Bound) : Prop :=
  ∀ c : Int, b.test { l with c := c } = some (decide (c < 2))

theorem isTwo_setTimes {b : Bound} (h : b = .times ∨ IsTwo l b) :
    IsTwo { l with times := 2 } b := by
  intro c
  cases b with
  | times => rfl
  | collection =>
      rcases h with h | h
      · simp at h
      · exact h c

theorem isTwo_setCollection {b : Bound} {u v : Value} (h : b = .collection ∨ IsTwo l b) :
    IsTwo { l with collection := .list [u, v] } b := by
  intro c
  cases b with
  | times =>
      rcases h with h | h
      · simp at h
      · exact h c
  | collection => rfl

/-- What a program leaves in the locals. A loop leaves the counter past two. -/
structure Leaves (p : Loops) (l l' : Locals) : Prop where
  two : ∀ b, IsTwo l b → IsTwo l' b
  plain : p.isPlain = true → l' = l
  counter : p.isPlain = false → 2 ≤ l'.c

section

variable {l' l'' : Locals} {s s' : State Unit} {next : Loops}

theorem Leaves.of_loop (hp : p.isPlain = false) (htwo : ∀ b, IsTwo l b → IsTwo l' b)
    (hc : 2 ≤ l'.c) (h : next.Leaves l' l'') : p.Leaves l l'' := by
  refine ⟨fun b hb => h.two b (htwo b hb), fun hplain => ?_, fun _ => ?_⟩
  · simp [hp] at hplain
  · cases hn : next.isPlain with
    | true => rwa [h.plain hn]
    | false => exact h.counter hn

/-- A loop around another takes one turn: the inner loop leaves the counter past the bound. -/
theorem leads_once {b : Bound} {code : List Instruction} (hcode : Balanced code) (h : IsTwo l b)
    (h' : IsTwo l' b) (hc : 2 ≤ l'.c) (hbody : Leads inert code { l with c := 0 } s l' s') :
    Leads inert (.loop b :: code ++ [.close]) l s { l' with c := l'.c + 1 } s' := by
  refine Leads.once hcode ?_ hbody ?_
  · rw [h 0]
    rfl
  · rw [h' (l'.c + 1), decide_eq_false (by omega)]

theorem isPlain_twice (p : Loops) : p.twice.isPlain = p.isPlain := by
  induction p with
  | plain t _ next ih => exact ih
  | _ => rfl

theorem two_turns_times {k : Nat}
    (hbody : ∀ k l s, HoldsDeep (body.visits + k) s → ∃ l' s',
      Leads inert (body.twice.code w) l s l' s' ∧ Performs (body.spent w) k s s' ∧ body.Leaves l l')
    (hs : HoldsDeep (2 * body.visits + k) s) :
    ∃ l' s', Leads inert (.setTimes 2 :: .loop .times :: body.twice.code w ++ [.close]) l s l' s' ∧
      Performs ((if body.isPlain then 2 else 1) * body.spent w) k s s' ∧
      (∀ b, IsTwo l b → IsTwo l' b) ∧ 2 ≤ l'.c := by
  cases hplain : body.isPlain with
  | true =>
      obtain ⟨s', hturns, hp⟩ := two_times (recorded_twice (w := w) body) hs
      have hlead := leads_times (n := 2) (l := l) ((isPlain_twice body).trans hplain) hturns
      refine ⟨_, s', hlead, ?_, fun b hb => isTwo_setTimes (.inr hb), by simp⟩
      simpa [spent_eq_due hplain] using hp
  | false =>
      obtain ⟨l', s', hlead, hp, hl⟩ := hbody k { l with times := 2, c := 0 } s (hs.mono (by omega))
      have hset : ∀ b, b = .times ∨ IsTwo l b → IsTwo l' b := fun b hb =>
        hl.two b (isTwo_setTimes hb)
      have hc := hl.counter hplain
      have hloop := leads_once (l := { l with times := 2 }) (b := .times) (balanced_code body.twice)
        (isTwo_setTimes (.inl rfl)) (hset .times (.inl rfl)) hc hlead
      refine ⟨_, s', (Leads.setTimes 2).append hloop, ?_, fun b hb => hset b (.inr hb), ?_⟩
      · simpa using hp
      · simp only
        omega

theorem two_turns_forEach {k : Nat} {collection : String} {u v : Value} (item : String)
    (hbody : ∀ k l s, HoldsDeep (body.visits + k) s → ∃ l' s',
      Leads inert (body.twice.code w) l s l' s' ∧ Performs (body.spent w) k s s' ∧ body.Leaves l l')
    (hs : HoldsDeep (2 * (body.visits + 1) + k) s) (hlist : s.vars collection = .list [u, v])
    (hu : IsDeep (2 * body.visits + 1 + k) u) (hv : IsDeep (2 * body.visits + 1 + k) v) :
    ∃ l' s', Leads inert (.setCollection collection :: .loop .collection :: .bind item ::
        body.twice.code w ++ [.close]) l s l' s' ∧
      Performs ((if body.isPlain then 2 else 1) * body.spent w) k s s' ∧
      (∀ b, IsTwo l b → IsTwo l' b) ∧ 2 ≤ l'.c := by
  cases hplain : body.isPlain with
  | true =>
      obtain ⟨s', hturns, hp⟩ := two_forEach item (recorded_twice (w := w) body) hs hu hv
      have hlead := leads_forEach (l := l) ((isPlain_twice body).trans hplain) hlist hturns
      refine ⟨_, s', hlead, ?_, fun b hb => isTwo_setCollection (.inr hb), by simp⟩
      simpa [spent_eq_due hplain] using hp
  | false =>
      have hassign : Performs 0 (body.visits + k) s (s.assign item u) :=
        .assign (hs.mono (by omega)) (hu.mono (by omega))
      obtain ⟨l', s', hlead, hp, hl⟩ :=
        hbody k { l with collection := .list [u, v], c := 0 } (s.assign item u) hassign.deep
      have hset : ∀ b, b = .collection ∨ IsTwo l b → IsTwo l' b := fun b hb =>
        hl.two b (isTwo_setCollection hb)
      have hc := hl.counter hplain
      have hbind : Leads inert [.bind item] { l with collection := .list [u, v], c := 0 } s
          { l with collection := .list [u, v], c := 0 } (s.assign item u) := .bind rfl rfl
      have hcode : Balanced (.bind item :: body.twice.code w) :=
        (Balanced.one (x := .bind item) (by simp) (by simp)).append (balanced_code body.twice)
      have hloop := leads_once (l := { l with collection := .list [u, v] }) (b := .collection) hcode
        (isTwo_setCollection (.inl rfl)) (hset .collection (.inl rfl)) hc (hbind.append hlead)
      have hread : Leads inert [.setCollection collection] l s
          { l with collection := .list [u, v] } s := hlist ▸ .setCollection collection
      refine ⟨_, s', hread.append hloop, ?_, fun b hb => hset b (.inr hb), ?_⟩
      · simpa using hassign.trans hp
      · simp only
        omega

/-- With two in the place of every count, on lists of two, a run performs what is spent. -/
theorem leads_twice (p : Loops) (k : Nat) (l : Locals) (s : State Unit)
    (hs : HoldsDeep (p.visits + k) s) :
    ∃ l' s', Leads inert (p.twice.code w) l s l' s' ∧ Performs (p.spent w) k s s' ∧
      p.Leaves l l' := by
  induction p generalizing k l s with
  | done =>
      exact ⟨l, s, .nil, ⟨hs.mono (by omega), rfl⟩, fun _ h => h, fun _ => rfl, by simp [isPlain]⟩
  | plain t h next ih =>
      have hperform := Performs.lines (w t) hs
      obtain ⟨l', s', hnext, hp, hl⟩ := ih k l _ hperform.deep
      have hline : Leads inert ((w t).map .perform) l s l
          { s with performed := s.performed ++ w t } := perform_inert (w t) s ▸ .perform (w t)
      exact ⟨l', s', hline.append hnext, hperform.trans hp, hl.two, hl.plain, hl.counter⟩
  | times head body tail next ihb ihn =>
      simp only [visits] at hs
      obtain ⟨l₁, s₁, hlead, hp, htwo, hc⟩ :=
        two_turns_times (l := l) (k := next.visits + k) ihb (hs.mono (by omega))
      obtain ⟨l', s', hnext, hp', hl⟩ := ihn k l₁ s₁ hp.deep
      refine ⟨l', s', ?_, hp.trans hp', .of_loop rfl htwo hc hl⟩
      simpa [twice, code, Repeat.twice] using hlead.append hnext
  | forEach head body tail next ihb ihn =>
      simp only [visits] at hs
      obtain ⟨u, v, hlist, hu, hv⟩ : IsDeep ((2 * body.visits + 1 + (next.visits + k)) + 1)
        (s.vars head.step.target) := (hs head.step.target).mono (by omega)
      obtain ⟨l₁, s₁, hlead, hp, htwo, hc⟩ := two_turns_forEach (l := l) (k := next.visits + k)
        head.step.value ihb (hs.mono (by omega)) hlist hu hv
      obtain ⟨l', s', hnext, hp', hl⟩ := ihn k l₁ s₁ hp.deep
      refine ⟨l', s', ?_, hp.trans hp', .of_loop rfl htwo hc hl⟩
      simpa [twice, code] using hlead.append hnext

end

/-- Three turns instead of six: the inner loop leaves the counter at three. -/
example : (Machine.run inert 40 ⟨[.setTimes 2, .loop .times, .setTimes 3, .loop .times,
    .perform "a", .close, .close], [], .unset, ⟨fun _ => .list [], (), []⟩⟩).map (·.performed) =
    some ["a", "a", "a"] := rfl

/-! ## The lines of a program -/

/-- Loops run as recorded, whatever the counts and the stored lists, where none stands in another.
Where one does, with two in the place of every count there are stored lists of two on which the
lines perform less than is recorded. -/
theorem nesting_decides_run (setting : Setting) (p : Loops) (hp : p.IsOpaque setting) :
    ∃ lines, p.lines setting = .ok lines ∧
      (p.isFlat = true → ∀ (σ : Type) (effect : Effect σ) (s s' : State σ),
        p.recorded (Step.lines setting) effect s = some s' → Executes effect lines s s') ∧
      (p.isFlat = false → p.isBusy (Step.lines setting) = true →
        ∃ lines', p.twice.lines setting = .ok lines' ∧ ∃ s s' t : State Unit,
          p.twice.recorded (Step.lines setting) inert s = some s' ∧
          (∀ u, Executes inert lines' s u ↔ u = t) ∧
          t.performed.length < s'.performed.length) := by
  obtain ⟨lines, hlines, hcode⟩ := readLines_lines hp
  refine ⟨lines, hlines, fun hflat σ effect s s' h => ?_, fun hflat hbusy => ?_⟩
  · obtain ⟨l', hlead⟩ := leads_flat hflat h .unset
    exact ⟨_, hcode, hlead.halts⟩
  · obtain ⟨lines', hlines', hcode'⟩ := readLines_lines hp.twice
    obtain ⟨v, hv⟩ := exists_isDeep (p.visits + 0)
    let s : State Unit := ⟨fun _ => v, (), []⟩
    have hs : HoldsDeep (p.visits + 0) s := fun _ => hv
    obtain ⟨s', hrecorded, hdue⟩ := recorded_twice (w := Step.lines setting) p 0 s hs
    obtain ⟨l', t, hlead, hspent, -⟩ := leads_twice (w := Step.lines setting) p 0 .unset s hs
    have ht : Executes inert lines' s t := ⟨_, hcode', hlead.halts⟩
    refine ⟨lines', hlines', s, s', t, hrecorded, fun u => ⟨fun hu => hu.unique ht, ?_⟩, ?_⟩
    · rintro rfl
      exact ht
    · have hlt := spent_lt_due hflat hbusy
      have hl := hdue.length
      have hl' := hspent.length
      omega

/-- One repetition, and one in another. -/
theorem nesting_decides_run_of_two : ∃ inner outer : Loops,
    inner.steps.map (fun s => (s.command, s.target)) = [("times", "3"), ("echo", "a"), ("end", "")] ∧
    outer.steps.map (fun s => (s.command, s.target)) =
      ("times", "2") :: inner.steps.map (fun s => (s.command, s.target)) ++ [("end", "")] ∧
    (∃ lines, inner.lines ⟨"", .webDriver⟩ = .ok lines ∧
      ∀ (σ : Type) (effect : Effect σ) (s s' : State σ),
        inner.recorded (Step.lines ⟨"", .webDriver⟩) effect s = some s' →
        Executes effect lines s s') ∧
    ∃ lines', outer.twice.lines ⟨"", .webDriver⟩ = .ok lines' ∧ ∃ s s' t : State Unit,
      outer.twice.recorded (Step.lines ⟨"", .webDriver⟩) inert s = some s' ∧
      (∀ u, Executes inert lines' s u ↔ u = t) ∧
      t.performed.length < s'.performed.length := by
  let setting : Setting := ⟨"", .webDriver⟩
  let echo := { Step.blank with command := "echo", target := "a" }
  let tail : Control ["end"] := ⟨{ Step.blank with command := "end" }, by decide, rfl⟩
  let count (n : Int) (h : n.natAbs ≤ 2 ^ 53) : Repeat :=
    ⟨⟨{ Step.blank with command := "times", target := toString n }, by simp, rfl⟩, n, rfl, h⟩
  let inner : Loops := .times (count 3 (by decide)) (.plain echo (by decide) .done) tail .done
  let outer : Loops := .times (count 2 (by decide)) inner tail .done
  have hecho : Registry.builtin.emit setting echo = .ok (.statement "codecept_debug('a');") :=
    (Registry.emit_builtin_eq_ok_iff (by decide)).mpr
      ⟨.echo, _, by decide +kernel, rfl, by decide +kernel⟩
  have hlines : echo.lines setting = ["codecept_debug('a');"] := by
    rw [Step.lines_of_emit hecho]
    decide +kernel
  have hopaque : echo.IsOpaque setting := by
    refine ⟨⟨_, hecho⟩, ?_⟩
    rw [hlines]
    decide +kernel
  have hinner : inner.IsOpaque setting := by
    intro s hm
    obtain rfl := List.mem_singleton.mp hm
    exact hopaque
  have houter : outer.IsOpaque setting := hinner
  have hbusy : outer.isBusy (Step.lines setting) = true := by
    simp [outer, inner, isBusy, weight, hlines]
  obtain ⟨lines, hinnerLines, hflat, -⟩ := nesting_decides_run setting inner hinner
  obtain ⟨-, -, -, hnested⟩ := nesting_decides_run setting outer houter
  exact ⟨inner, outer, by decide, by decide, ⟨lines, hinnerLines, hflat rfl⟩, hnested rfl hbusy⟩

end CestWriter.Loops
