import CestWriter.Proofs.Cli.Run

/-! # What programs do to the disk

A run of a program makes directories and writes files, one after another. These changes are all that
happens to the disk. -/

namespace CestWriter.Cli

/-- One thing that is done to the disk, unless the system refuses it. -/
inductive Change
  | made (path : String)
  | wrote (path text : String)
  deriving DecidableEq

/-- The disk after a change. A refused one leaves it as it was. -/
def Change.apply (d : Disk) : Change → Disk
  | made path => ((d.makeDir path).toOption).getD d
  | wrote path text => ((d.write path text).toOption).getD d

variable {ε α β : Type} {w w' mid : World}

namespace Program

/-- The changes that a run asks for, in order. -/
def trace : Program α → World → List Change
  | .done _, _ => []
  | .print text next, w => next.trace { w with output := w.output ++ text }
  | .readInput next, w => (next (.ok w.input)).trace { w with input := "" }
  | .readFile path next, w => (next (w.readFile path).1).trace (w.readFile path).2
  | .makeDir path next, w =>
    .made path :: (next (w.settle (w.disk.makeDir path)).1).trace (w.settle (w.disk.makeDir path)).2
  | .isDirectory path next, w => (next (w.disk.isDirectory path)).trace w
  | .writeFile path text next, w =>
    .wrote path text ::
      (next (w.settle (w.disk.write path text)).1).trace (w.settle (w.disk.write path text)).2
  | .ask socket line next, w => (next (Wire.ask socket (w.server socket line))).trace w

theorem trace_bind (p : Program α) (f : α → Program β) (w : World) :
    (p.bind f).trace w = p.trace w ++ (f (p.run w).1).trace (p.run w).2 := by
  induction p generalizing w with
  | done result => rfl
  | print text next ih => exact ih _
  | readInput next ih => exact ih _ _
  | readFile path next ih => exact ih _ _
  | makeDir path next ih => exact congrArg _ (ih _ _)
  | isDirectory path next ih => exact ih _ _
  | writeFile path text next ih => exact congrArg _ (ih _ _)
  | ask socket line next ih => exact ih _ _

end Program

theorem World.disk_readFile (w : World) (path : String) : (w.readFile path).2.disk = w.disk := by
  unfold readFile
  split
  · rfl
  · split <;> rfl

theorem World.disk_settle (w : World) (x : Except Refusal Disk) :
    (w.settle x).2.disk = x.toOption.getD w.disk := by
  cases x <;> rfl

/-- Nothing but the changes of its trace happens to the disk in a run. -/
theorem Program.disk_run (p : Program α) (w : World) :
    (p.run w).2.disk = (p.trace w).foldl Change.apply w.disk := by
  induction p generalizing w with
  | done result => rfl
  | print text next ih => exact ih _
  | readInput next ih => exact ih _ _
  | readFile path next ih =>
      show ((next (w.readFile path).1).run (w.readFile path).2).2.disk = _
      rw [ih, World.disk_readFile]
      rfl
  | makeDir path next ih =>
      show ((next (w.settle (w.disk.makeDir path)).1).run (w.settle (w.disk.makeDir path)).2).2.disk = _
      rw [ih, World.disk_settle]
      rfl
  | isDirectory path next ih => exact ih _ _
  | writeFile path text next ih =>
      show ((next (w.settle (w.disk.write path text)).1).run
        (w.settle (w.disk.write path text)).2).2.disk = _
      rw [ih, World.disk_settle]
      rfl
  | ask socket line next ih => exact ih _ _

/-! ## Jobs that fail -/

/-- The steps lead from one world to another, and the last of them fails. -/
def Fails (x : ExceptT ε Program α) (w : World) (fault : ε) (w' : World) : Prop :=
  x.run.run w = (.error fault, w')

theorem run_bind_job (x : ExceptT ε Program α) (f : α → ExceptT ε Program β) (w : World) :
    (x >>= f).run.run w = (ExceptT.bindCont f (x.run.run w).1).run (x.run.run w).2 :=
  Program.run_bind _ _ w

theorem trace_bind_job (x : ExceptT ε Program α) (f : α → ExceptT ε Program β) (w : World) :
    (x >>= f).run.trace w =
      x.run.trace w ++ (ExceptT.bindCont f (x.run.run w).1).trace (x.run.run w).2 :=
  Program.trace_bind _ _ w

theorem Yields.run_bind {x : ExceptT ε Program α} {f : α → ExceptT ε Program β} {a : α}
    (hx : Yields x w a mid) : (x >>= f).run.run w = (f a).run.run mid := by
  rw [run_bind_job, hx]
  rfl

theorem Yields.bind_fails {x : ExceptT ε Program α} {f : α → ExceptT ε Program β} {a : α} {fault : ε}
    (hx : Yields x w a mid) (hf : Fails (f a) mid fault w') : Fails (x >>= f) w fault w' := by
  rw [Fails, run_bind_job, hx]
  exact hf

theorem Yields.trace_bind {x : ExceptT ε Program α} {f : α → ExceptT ε Program β} {a : α}
    (hx : Yields x w a mid) : (x >>= f).run.trace w = x.run.trace w ++ (f a).run.trace mid := by
  rw [trace_bind_job, hx]
  rfl

theorem Fails.bind {x : ExceptT ε Program α} (f : α → ExceptT ε Program β) {fault : ε}
    (hx : Fails x w fault w') : Fails (x >>= f) w fault w' := by
  rw [Fails, run_bind_job, hx]
  rfl

theorem Fails.trace_bind {x : ExceptT ε Program α} (f : α → ExceptT ε Program β) {fault : ε}
    (hx : Fails x w fault w') : (x >>= f).run.trace w = x.run.trace w := by
  rw [trace_bind_job, hx]
  exact List.append_nil _

/-! ## Programs that keep to some changes -/

/-- Every run asks for changes of one kind only, and ends with a result of another kind. -/
structure Program.Within (P : Change → Prop) (Q : α → Prop) (p : Program α) : Prop where
  trace : ∀ w, ∀ c ∈ p.trace w, P c
  result : ∀ w, Q (p.run w).1

/-- The result of a success is of a kind. -/
def Passes (Q : α → Prop) (r : Except ε α) : Prop :=
  ∀ a, r = .ok a → Q a

/-- Every run of a job asks for changes of one kind only, and if it succeeds, its result is of another
kind. -/
abbrev Within (P : Change → Prop) (Q : α → Prop) (x : ExceptT ε Program α) : Prop :=
  x.run.Within P (Passes Q)

variable {P : Change → Prop} {Q : α → Prop} {R : β → Prop}

namespace Program.Within

theorem done {result : α} (h : Q result) : (Program.done result).Within P Q :=
  ⟨fun _ _ hc => absurd hc List.not_mem_nil, fun _ => h⟩

theorem makeDir {path : String} {next : Except Refusal Unit → Program α} (hp : P (.made path))
    (h : ∀ r, (next r).Within P Q) : (Program.makeDir path next).Within P Q := by
  refine ⟨fun w c hc => ?_, fun w => (h _).result _⟩
  rcases List.mem_cons.mp hc with rfl | hc
  · exact hp
  · exact (h _).trace _ c hc

theorem writeFile {path text : String} {next : Except Refusal Unit → Program α}
    (hp : P (.wrote path text)) (h : ∀ r, (next r).Within P Q) :
    (Program.writeFile path text next).Within P Q := by
  refine ⟨fun w c hc => ?_, fun w => (h _).result _⟩
  rcases List.mem_cons.mp hc with rfl | hc
  · exact hp
  · exact (h _).trace _ c hc

theorem isDirectory {path : String} {next : Bool → Program α} (h : ∀ b, (next b).Within P Q) :
    (Program.isDirectory path next).Within P Q :=
  ⟨fun _ => (h _).trace _, fun _ => (h _).result _⟩

theorem print {text : String} {next : Program α} (h : next.Within P Q) :
    (Program.print text next).Within P Q :=
  ⟨fun _ => h.trace _, fun _ => h.result _⟩

theorem readInput {next : Except Refusal String → Program α} (h : ∀ r, (next r).Within P Q) :
    (Program.readInput next).Within P Q :=
  ⟨fun _ => (h _).trace _, fun _ => (h _).result _⟩

theorem readFile {path : String} {next : Except Refusal String → Program α}
    (h : ∀ r, (next r).Within P Q) : (Program.readFile path next).Within P Q :=
  ⟨fun _ => (h _).trace _, fun _ => (h _).result _⟩

theorem bind {p : Program α} {f : α → Program β} (hp : p.Within P Q)
    (hf : ∀ a, Q a → (f a).Within P R) : (p.bind f).Within P R := by
  constructor
  · intro w c hc
    rw [trace_bind] at hc
    rcases List.mem_append.mp hc with hc | hc
    · exact hp.trace w c hc
    · exact (hf _ (hp.result w)).trace _ c hc
  · intro w
    rw [run_bind]
    exact (hf _ (hp.result w)).result _

end Program.Within

namespace Within

variable {x : ExceptT ε Program α}

theorem mono {P' : Change → Prop} (h : Within P Q x) (hP : ∀ change, P change → P' change) :
    Within P' Q x :=
  ⟨fun w change hchange => hP change (h.trace w change hchange), h.result⟩

theorem any (h : Within P Q x) : x.run.Within P fun _ => True :=
  ⟨h.trace, fun _ => trivial⟩

theorem bind {f : α → ExceptT ε Program β} (hx : Within P Q x) (hf : ∀ a, Q a → Within P R (f a)) :
    Within P R (x >>= f) := by
  refine Program.Within.bind hx fun r hr => ?_
  cases r with
  | error e => exact .done fun a ha => nomatch ha
  | ok a => exact hf a (hr a rfl)

protected theorem pure {a : α} (ha : Q a) : Within P Q (pure a : ExceptT ε Program α) := by
  refine Program.Within.done fun b hb => ?_
  obtain rfl := Except.ok.inj hb
  exact ha

end Within

theorem within_orFail {cause : ε → Failure} {x : Except ε α} (h : ∀ a, x = .ok a → Q a) :
    Within P Q (orFail cause x) := by
  cases x with
  | error e => exact Program.Within.done fun a ha => nomatch ha
  | ok a => exact .pure (h a rfl)

theorem within_lift {p : Program α} (h : p.Within P Q) : Within P Q (lift p) := by
  refine Program.Within.bind h fun a ha => .done fun b hb => ?_
  obtain rfl := Except.ok.inj hb
  exact ha

end CestWriter.Cli
