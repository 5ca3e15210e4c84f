import CestWriter.Proofs.Php.Turns
import CestWriter.Proofs.Recording.Program
import Mathlib.Algebra.Order.Ring.Int

/-! # Programs of counted loops and their recorded meaning -/

namespace CestWriter

open Php (Value State Effect Instruction inTurn)

/-- A repetition with a whole number as its count, no larger than doubles hold exactly. -/
structure Repeat extends Control ["times"] where
  count : Int
  literal : step.target = toString count
  exact : count.natAbs ≤ 2 ^ 53

/-- A repetition with two in the place of its count. -/
def Repeat.twice (head : Repeat) : Repeat :=
  ⟨⟨{ head.step with target := "2" }, head.named, head.noWindow⟩, 2, rfl, by decide⟩

/-- A text that stands for itself between single quotes. -/
def IsVerbatim (name : String) : Prop :=
  ∀ c ∈ name.toList, c ≠ '\'' ∧ c ≠ '\\'

/-- A visit of the elements of the list that is stored under the target. Each in turn is stored
under the value. -/
structure Visit extends Control ["forEach"] where
  collection : IsVerbatim step.target
  item : IsVerbatim step.value

/-- Plain steps and loops, properly nested. -/
inductive Loops
  | done
  | plain (s : Step) (h : s.command ∉ controlCommands) (next : Loops)
  | times (head : Repeat) (body : Loops) (tail : Control ["end"]) (next : Loops)
  | forEach (head : Visit) (body : Loops) (tail : Control ["end"]) (next : Loops)

namespace Loops

def steps : Loops → List Step
  | done => []
  | plain s _ next => s :: next.steps
  | times head body tail next => head.step :: body.steps ++ tail.step :: next.steps
  | forEach head body tail next => head.step :: body.steps ++ tail.step :: next.steps

def plainSteps : Loops → List Step
  | done => []
  | plain s _ next => s :: next.plainSteps
  | times _ body _ next | forEach _ body _ next => body.plainSteps ++ next.plainSteps

/-! ## Meaning -/

variable {σ : Type} (w : Step → List String) (effect : Effect σ)

/-- What a program is recorded to do, where `w` gives the lines of its plain steps. A repetition
runs its body as often as its count says. A visit runs it once for each element, with the element
stored, and cannot go on where there is no list. -/
def recorded : Loops → State σ → Option (State σ)
  | done, s => some s
  | plain p _ next, s => next.recorded ((w p).foldl (fun s line => s.perform effect line) s)
  | times head body _ next, s =>
    (inTurn (List.replicate head.count.toNat body.recorded) s).bind next.recorded
  | forEach head body _ next, s =>
    match s.vars head.step.target with
    | .scalar _ => none
    | .list items =>
      (inTurn (items.map fun v s => body.recorded (s.assign head.step.value v)) s).bind
        next.recorded

/-- The instructions of the lines that a program is written as. -/
def code : Loops → List Instruction
  | done => []
  | plain s _ next => (w s).map .perform ++ next.code
  | times head body _ next =>
    .setTimes head.count :: .loop .times :: body.code ++ .close :: next.code
  | forEach head body _ next =>
    .setCollection head.step.target :: .loop .collection :: .bind head.step.value ::
      body.code ++ .close :: next.code

/-! ## Nesting -/

/-- No loops at all. -/
def isPlain : Loops → Bool
  | done => true
  | plain _ _ next => next.isPlain
  | times .. | forEach .. => false

/-- No loop stands in another. -/
def isFlat : Loops → Bool
  | done => true
  | plain _ _ next => next.isFlat
  | times _ body _ next | forEach _ body _ next => body.isPlain && next.isFlat

/-- The number of lines of the plain steps, each counted once. -/
def weight : Loops → Nat
  | done => 0
  | plain s _ next => (w s).length + next.weight
  | times _ body _ next | forEach _ body _ next => body.weight + next.weight

/-- Every loop that stands in no other has something to perform. -/
def isBusy : Loops → Bool
  | done => true
  | plain _ _ next => next.isBusy
  | times _ body _ next | forEach _ body _ next => body.weight w != 0 && next.isBusy

/-- The program with two in the place of every count. -/
def twice : Loops → Loops
  | done => done
  | plain s h next => plain s h next.twice
  | times head body tail next => times head.twice body.twice tail next.twice
  | forEach head body tail next => forEach head body.twice tail next.twice

theorem plainSteps_twice (p : Loops) : p.twice.plainSteps = p.plainSteps := by
  induction p with
  | done => rfl
  | plain s h next ih => simp [twice, plainSteps, ih]
  | times head body tail next ihb ihn => simp [twice, plainSteps, ihb, ihn]
  | forEach head body tail next ihb ihn => simp [twice, plainSteps, ihb, ihn]

end Loops

end CestWriter
