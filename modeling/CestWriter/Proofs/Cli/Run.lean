import CestWriter.Cli.World
import CestWriter.Proofs.Files.Disk

/-! # Programs that succeed

A job succeeds if its parts do, each in the world that the parts before it have left. -/

namespace CestWriter.Cli

/-- The steps lead from one world to another and do not fail. -/
def Yields {ε α : Type} (x : ExceptT ε Program α) (w : World) (result : α) (w' : World) : Prop :=
  x.run.run w = (.ok result, w')

variable {ε α β : Type} {w w' : World}

theorem Program.run_bind (p : Program α) (f : α → Program β) (w : World) :
    (p.bind f).run w = (f (p.run w).1).run (p.run w).2 := by
  induction p generalizing w with
  | done result => rfl
  | print text next ih => exact ih _
  | readInput next ih => exact ih _ _
  | readFile path next ih => exact ih _ _
  | makeDir path next ih => exact ih _ _
  | isDirectory path next ih => exact ih _ _
  | writeFile path text next ih => exact ih _ _
  | ask socket line next ih => exact ih _ _

theorem yields_bind {x : ExceptT ε Program α} {f : α → ExceptT ε Program β} {b : β} :
    Yields (x >>= f) w b w' ↔ ∃ a mid, Yields x w a mid ∧ Yields (f a) mid b w' := by
  have hrun : (x >>= f).run.run w = (ExceptT.bindCont f (x.run.run w).1).run (x.run.run w).2 :=
    Program.run_bind _ _ w
  rw [Yields, hrun]
  cases hx : x.run.run w with
  | mk result mid =>
      cases result with
      | error e =>
          constructor
          · intro h
            cases h
          · rintro ⟨a, mid', ha, -⟩
            cases hx.symm.trans ha
      | ok a =>
          constructor
          · exact fun h => ⟨a, mid, hx, h⟩
          · rintro ⟨a', mid', ha, h⟩
            cases hx.symm.trans ha
            exact h

theorem yields_pure {a b : α} : Yields (pure a : ExceptT ε Program α) w b w' ↔ b = a ∧ w' = w := by
  constructor
  · intro h
    cases h
    exact ⟨rfl, rfl⟩
  · rintro ⟨rfl, rfl⟩
    rfl

theorem yields_lift {p : Program α} {a : α} : Yields (lift p) w a w' ↔ p.run w = (a, w') := by
  have hrun : (lift p).run.run w = (.ok (p.run w).1, (p.run w).2) := Program.run_bind _ _ w
  rw [Yields, hrun]
  constructor
  · intro h
    cases h
    rfl
  · intro h
    rw [h]

theorem yields_orFail {cause : ε → Failure} {x : Except ε α} {a : α} :
    Yields (orFail cause x) w a w' ↔ x = .ok a ∧ w' = w := by
  cases x with
  | error e =>
      constructor
      · intro h
        cases h
      · rintro ⟨h, -⟩
        cases h
  | ok b =>
      rw [orFail, yields_pure, Except.ok.injEq, eq_comm]

end CestWriter.Cli
