import CestWriter.Recording.Basic
import CestWriter.Proofs.Layout.Blocks

/-! # Properly nested programs -/

namespace CestWriter

/-- The commands of control flow. -/
def controlCommands : List String :=
  ["if", "elseIf", "else", "end", "while", "times", "forEach", "do", "repeatIf"]

/-- A step with one of the given commands, which opens no window. -/
structure Control (commands : List String) where
  step : Step
  named : step.command ∈ commands
  noWindow : step.opensWindow = false

mutual
/-- Steps in order, properly nested. -/
inductive Program
  | done
  | plain (s : Step) (h : s.command ∉ controlCommands) (next : Program)
  | loop (head : Control ["while", "times", "forEach"]) (body : Program) (tail : Control ["end"])
      (next : Program)
  | doLoop (head : Control ["do"]) (body : Program) (tail : Control ["repeatIf"]) (next : Program)
  | branch (head : Control ["if"]) (body : Program) (rest : Branches) (next : Program)
/-- What follows the first branch of an `if`. -/
inductive Branches
  | last (tail : Control ["end"])
  | otherwise (head : Control ["else"]) (body : Program) (tail : Control ["end"])
  | elseIf (head : Control ["elseIf"]) (body : Program) (rest : Branches)
end

mutual
def Program.steps : Program → List Step
  | .done => []
  | .plain s _ next => s :: next.steps
  | .loop head body tail next => head.step :: body.steps ++ tail.step :: next.steps
  | .doLoop head body tail next => head.step :: body.steps ++ tail.step :: next.steps
  | .branch head body rest next => head.step :: body.steps ++ rest.steps ++ next.steps
def Branches.steps : Branches → List Step
  | .last tail => [tail.step]
  | .otherwise head body tail => head.step :: body.steps ++ [tail.step]
  | .elseIf head body rest => head.step :: body.steps ++ rest.steps
end

/-! ## Properties of all steps -/

theorem forall_mem_headed {P : Step → Prop} {head : Step} {body rest : List Step} :
    (∀ s ∈ head :: body ++ rest, P s) ↔ P head ∧ (∀ s ∈ body, P s) ∧ ∀ s ∈ rest, P s := by
  rw [List.cons_append, List.forall_mem_cons, List.forall_mem_append]

mutual
theorem Program.forall_steps {P : Step → Prop} (p : Program)
    (hplain : ∀ s : Step, s.command ∉ controlCommands → P s)
    (hcontrol : ∀ {commands : List String} (c : Control commands), P c.step) :
    ∀ s ∈ p.steps, P s := by
  cases p with
  | done => simp [Program.steps]
  | plain s h next =>
      exact List.forall_mem_cons.mpr ⟨hplain s h, next.forall_steps hplain hcontrol⟩
  | loop head body tail next | doLoop head body tail next =>
      have hbody := body.forall_steps hplain hcontrol
      have hnext := next.forall_steps hplain hcontrol
      have hrest := List.forall_mem_cons.mpr ⟨hcontrol tail, hnext⟩
      exact forall_mem_headed.mpr ⟨hcontrol head, hbody, hrest⟩
  | branch head body rest next =>
      have hbody := body.forall_steps hplain hcontrol
      have hrest := rest.forall_steps hplain hcontrol
      have hbranches := forall_mem_headed.mpr ⟨hcontrol head, hbody, hrest⟩
      exact List.forall_mem_append.mpr ⟨hbranches, next.forall_steps hplain hcontrol⟩
theorem Branches.forall_steps {P : Step → Prop} (b : Branches)
    (hplain : ∀ s : Step, s.command ∉ controlCommands → P s)
    (hcontrol : ∀ {commands : List String} (c : Control commands), P c.step) :
    ∀ s ∈ b.steps, P s := by
  cases b with
  | last tail => exact List.forall_mem_singleton.mpr (hcontrol tail)
  | otherwise head body tail =>
      have hbody := body.forall_steps hplain hcontrol
      have htail := List.forall_mem_singleton.mpr (hcontrol tail)
      exact forall_mem_headed.mpr ⟨hcontrol head, hbody, htail⟩
  | elseIf head body rest =>
      have hbody := body.forall_steps hplain hcontrol
      have hrest := rest.forall_steps hplain hcontrol
      exact forall_mem_headed.mpr ⟨hcontrol head, hbody, hrest⟩
end

/-! ## The nesting tree -/

variable (w : Step → List Line)

mutual
/-- The tree of a program whose steps are written as lines by `w`, with `after` behind it. A plain
step gives what its own lines read as. -/
def Program.forest : Program → Forest → Forest
  | .done, after => after
  | .plain s _ next, after => ((Forest.read? (w s)).getD .nil).graft (next.forest after)
  | .loop head body tail next, after =>
    .opened (w head.step) (body.forest .nil) (.leaves (w tail.step) (next.forest after))
  | .doLoop head body tail next, after =>
    .opened (w head.step) (body.forest .nil) (.leaves (w tail.step) (next.forest after))
  | .branch head body rest next, after =>
    .opened (w head.step) (body.forest .nil) (rest.forest (next.forest after))
def Branches.forest : Branches → Forest → Forest
  | .last tail, after => .leaves (w tail.step) after
  | .otherwise head body tail, after =>
    .opened (w head.step) (body.forest .nil) (.leaves (w tail.step) after)
  | .elseIf head body rest, after =>
    .opened (w head.step) (body.forest .nil) (rest.forest after)
end

/-! ## The blocks alone -/

variable (own : Step → Nest)

mutual
/-- The blocks of a program, with `after` behind them. A branch is a block, a loop is a block, and
a plain step has blocks of its own. -/
def Program.nest : Program → Nest → Nest
  | .done, after => after
  | .plain s _ next, after => (own s).graft (next.nest after)
  | .loop _ body _ next, after => .block (body.nest .nil) (next.nest after)
  | .doLoop _ body _ next, after => .block (body.nest .nil) (next.nest after)
  | .branch _ body rest next, after => .block (body.nest .nil) (rest.nest (next.nest after))
def Branches.nest : Branches → Nest → Nest
  | .last _, after => after
  | .otherwise _ body _, after => .block (body.nest .nil) after
  | .elseIf _ body rest, after => .block (body.nest .nil) (rest.nest after)
end

end CestWriter
