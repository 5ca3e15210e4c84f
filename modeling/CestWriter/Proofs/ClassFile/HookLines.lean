import CestWriter.Proofs.ClassFile.Disabled
import Mathlib.Algebra.Group.Nat.Defs

/-! # Lines registered into hooks

The file of a class is laid out in spots. Most hold a line of their own. The others hold what has
been registered into one hook, so a registration can only bring in lines there: it moves no line of
the file and no line of another hook. -/

namespace CestWriter

theorem Line.raise_raise (m n : Nat) (l : Line) : (l.raise m).raise n = l.raise (m + n) :=
  congrArg (Line.mk · l.statement) (Nat.add_assoc ..)

theorem Line.raise_zero : Line.raise 0 = id :=
  rfl

/-! ## Registering -/

/-- The lines that are meant for a hook, in their order. -/
def Hook.Kind.linesIn (kind : Hook.Kind) (regs : List (Hook.Kind × Line)) : List Line :=
  (regs.filter (·.1 = kind)).map (·.2)

/-- Registers lines one after the other, each into its hook. -/
def Hooks.registerAll (hs : Hooks) (regs : List (Hook.Kind × Line)) : Hooks :=
  regs.foldl (fun hs (kind, l) => hs.register kind l) hs

/-- The exporter with further lines in its hooks. -/
def Exporter.registering (e : Exporter) (regs : List (Hook.Kind × Line)) : Exporter :=
  { e with hooks := e.hooks.registerAll regs }

namespace Hooks

variable {hs : Hooks} {kind : Hook.Kind} {regs regs' : List (Hook.Kind × Line)}

/-- A registration is the last line of its hook and leaves the other hooks alone. -/
theorem get_register (other : Hook.Kind) (l : Line) : (hs.register other l).get kind =
    { hs.get kind with registered := (hs.get kind).registered ++ kind.linesIn [(other, l)] } := by
  by_cases h : kind = other
  · simp [register, Hook.register, Hook.Kind.linesIn, h]
  · simp [register, Hook.Kind.linesIn, h, Ne.symm h]

/-- After many registrations, each hook holds its own lines in the order of their registration. -/
theorem get_registerAll : (hs.registerAll regs).get kind =
    { hs.get kind with registered := (hs.get kind).registered ++ kind.linesIn regs } := by
  induction regs generalizing hs with
  | nil => simp [registerAll, Hook.Kind.linesIn]
  | cons reg regs ih =>
      obtain ⟨other, l⟩ := reg
      have hsplit : kind.linesIn ((other, l) :: regs) =
          kind.linesIn [(other, l)] ++ kind.linesIn regs := by
        rw [Hook.Kind.linesIn, ← List.singleton_append, List.filter_append, List.map_append]
        rfl
      have hnext : hs.registerAll ((other, l) :: regs) = (hs.register other l).registerAll regs := rfl
      rw [hnext, ih, get_register, hsplit, List.append_assoc]

theorem get_registerAll_initial : (initial.registerAll regs).get kind =
    { Hook.initial kind with registered := kind.linesIn regs } := by
  have hnone : (Hook.initial kind).registered = [] := by cases kind <;> rfl
  rw [get_registerAll, initial, hnone, List.nil_append]

/-- It makes no difference how the lines of different hooks are mixed. -/
theorem registerAll_congr (h : ∀ kind : Hook.Kind, kind.linesIn regs = kind.linesIn regs') :
    hs.registerAll regs = hs.registerAll regs' := by
  have hget : (hs.registerAll regs).get = (hs.registerAll regs').get := by
    funext kind
    rw [get_registerAll, get_registerAll, h]
  exact congrArg Hooks.mk hget

end Hooks

/-- The hooks around all tests and the one for methods appear for registered lines alone. -/
theorem Hook.isRendered_of_bare {kind : Hook.Kind} {lines : List Line}
    (h : kind ∈ [Hook.Kind.beforeAll, .afterAll, .declareMethods]) :
    Hook.isRendered { Hook.initial kind with registered := lines } = !lines.isEmpty := by
  simp only [List.mem_cons, List.not_mem_nil, or_false] at h
  rcases h with rfl | rfl | rfl <;> simp [isRendered, hasRegistrations, initial, method, bare]

/-- The hooks around each test and the one for variables appear by themselves. -/
theorem Hook.isRendered_of_opening {kind : Hook.Kind} {lines : List Line}
    (h : kind ∈ [Hook.Kind.declareVariables, .beforeEach, .afterEach]) :
    Hook.isRendered { Hook.initial kind with registered := lines } = true := by
  simp only [List.mem_cons, List.not_mem_nil, or_false] at h
  rcases h with rfl | rfl | rfl <;> simp [isRendered, hasRegistrations, initial, method, bare]

/-! ## Spots -/

inductive Spot
  /-- A line that stands in the file whatever is registered. -/
  | fixed (l : Line)
  /-- The lines registered into a hook that is nested so many levels deep. -/
  | lines (kind : Hook.Kind) (nesting : Nat)
  /-- A member of the class that is there for the lines registered into a hook. -/
  | member (kind : Hook.Kind)

namespace Spot

variable {kind : Hook.Kind} {nesting : Nat} {regs : List (Hook.Kind × Line)}

/-- The lines registered into a hook, each at its own level and those of the hook. -/
def registered (regs : List (Hook.Kind × Line)) (kind : Hook.Kind) (nesting : Nat) : List Line :=
  (kind.linesIn regs).map (Line.raise ((Hook.initial kind).depth + nesting))

/-- What stands in a spot without any registration. -/
def kept : Spot → List Line
  | fixed l => [l]
  | lines _ _ => []
  | member _ => []

/-- What registrations bring to a spot. A member comes with an empty line before it. -/
def brought (regs : List (Hook.Kind × Line)) : Spot → List Line
  | fixed _ => []
  | lines kind nesting => registered regs kind nesting
  | member kind =>
    if kind.linesIn regs = [] then []
    else ⟨0, ""⟩ :: ((Hook.initial kind).opening.map (Line.raise 1) ++ registered regs kind 1 ++
      (Hook.initial kind).closing.map (Line.raise 1))

def fill (regs : List (Hook.Kind × Line)) (s : Spot) : List Line :=
  s.kept ++ s.brought regs

def ofLines (nesting : Nat) (ls : List Line) : List Spot :=
  ls.map fun l => fixed (l.raise nesting)

/-- A hook with lines of its own around those registered into it. -/
def ofHook (kind : Hook.Kind) (nesting : Nat) : List Spot :=
  ofLines nesting (Hook.initial kind).opening ++ [lines kind nesting] ++
    ofLines nesting (Hook.initial kind).closing

/-- An empty line and a test method or helper method, with the name and the test it is made of. -/
def ofMethod (e : Exporter) (pool : List Test) (options : RenderOptions) (m : String × Test) :
    List Spot :=
  ofLines 0 [⟨0, ""⟩, ⟨1, "public function " ++ m.1 ++ "(AcceptanceTester $i) \x7b"⟩] ++
    ofLines 2 (Exporter.traceHead options m.2) ++ ofHook .inEachBegin 2 ++
    ofLines 2 (e.walk pool options 1 .start m.2.commands).lines ++ ofHook .inEachEnd 2 ++
    ofLines 0 [⟨1, "\x7d"⟩]

theorem brought_nil (s : Spot) : s.brought [] = [] := by
  cases s <;> rfl

/-- The levels that a line registered into a hook gains in its spot. -/
def gain : Spot → Nat
  | fixed _ => 0
  | lines kind nesting => (Hook.initial kind).depth + nesting
  | member kind => (Hook.initial kind).depth + 1

theorem level_of_mem_registered {l : Line} {n : Nat} (hregs : ∀ reg ∈ regs, reg.2.level ≤ n)
    (hl : l ∈ registered regs kind nesting) :
    l.level ≤ n + ((Hook.initial kind).depth + nesting) := by
  obtain ⟨own, hown, rfl⟩ := List.mem_map.mp hl
  obtain ⟨reg, hreg, rfl⟩ := List.mem_map.mp hown
  exact Nat.add_le_add_right (hregs reg (List.mem_of_mem_filter hreg)) _

theorem level_of_mem_brought {s : Spot} {l : Line} {n : Nat} (hgain : s.gain ≤ 2)
    (hregs : ∀ reg ∈ regs, reg.2.level ≤ n) (hl : l ∈ s.brought regs) : l.level ≤ n + 2 := by
  cases s with
  | fixed own => cases hl
  | lines kind nesting =>
      exact Nat.le_trans (level_of_mem_registered hregs hl) (Nat.add_le_add_left hgain n)
  | member kind =>
      have hends : ∀ own ∈ (Hook.initial kind).opening ++ (Hook.initial kind).closing,
          (own.raise 1).level = 1 := by cases kind <;> decide
      rw [brought] at hl
      split at hl
      · cases hl
      · simp only [List.mem_cons, List.mem_append, List.mem_map] at hl
        rcases hl with rfl | (⟨own, hown, rfl⟩ | hl) | ⟨own, hown, rfl⟩
        · exact Nat.zero_le _
        · rw [hends own (List.mem_append_left _ hown)]
          omega
        · exact Nat.le_trans (level_of_mem_registered hregs hl) (Nat.add_le_add_left hgain n)
        · rw [hends own (List.mem_append_right _ hown)]
          omega

/-- Lines registered into these spots gain two levels at most. -/
def Shallow (spots : List Spot) : Prop :=
  ∀ s ∈ spots, s.gain ≤ 2

@[simp]
theorem shallow_append {first rest : List Spot} :
    Shallow (first ++ rest) ↔ Shallow first ∧ Shallow rest :=
  List.forall_mem_append

@[simp]
theorem shallow_cons {s : Spot} {rest : List Spot} :
    Shallow (s :: rest) ↔ s.gain ≤ 2 ∧ Shallow rest :=
  List.forall_mem_cons

@[simp]
theorem shallow_ofLines (ls : List Line) : Shallow (ofLines nesting ls) := by
  intro s hs
  obtain ⟨l, -, rfl⟩ := List.mem_map.mp hs
  exact Nat.zero_le 2

@[simp]
theorem shallow_ofHook :
    Shallow (ofHook kind nesting) ↔ (Hook.initial kind).depth + nesting ≤ 2 := by
  simp [ofHook, gain]

theorem interleaved_fill (regs : List (Hook.Kind × Line)) (spots : List Spot) :
    Interleaved (spots.flatMap kept) (spots.flatMap (brought regs)) (spots.flatMap (fill regs)) := by
  have hadded (ls : List Line) : Interleaved [] ls ls := by
    induction ls with
    | nil => exact .nil
    | cons l ls ih => exact ih.right l
  induction spots with
  | nil => exact .nil
  | cons s spots ih =>
      have hs := (Interleaved.alone s.kept).append (hadded (s.brought regs))
      rw [List.append_nil, List.nil_append] at hs
      exact hs.append ih

theorem fill_nil : fill [] = kept := by
  funext s
  rw [fill, brought_nil, List.append_nil]

@[simp]
theorem fill_ofLines (ls : List Line) :
    (ofLines nesting ls).flatMap (fill regs) = ls.map (Line.raise nesting) := by
  rw [ofLines, List.flatMap_map, List.map_eq_flatMap]
  rfl

/-- A hook with its spots filled is the hook with the lines registered. -/
@[simp]
theorem fill_ofHook : (ofHook kind nesting).flatMap (fill regs) =
    ((Hooks.initial.registerAll regs).get kind).render.map (Line.raise nesting) := by
  have hlines : fill regs (lines kind nesting) = registered regs kind nesting := rfl
  rw [ofHook, Hooks.get_registerAll_initial, Hook.render]
  simp [hlines, registered, Function.comp_def, Line.raise_raise]

end Spot

namespace Exporter

variable {e : Exporter} {pool members : List Test} {options : RenderOptions} {name : String}
  {regs : List (Hook.Kind × Line)}

/-! ## Bodies and members -/

theorem walk_registering : (e.registering regs).walk pool options = e.walk pool options := by
  funext number level steps
  have hwrite (s : Step) : (e.registering regs).writeStep pool options s =
      e.writeStep pool options s := rfl
  induction steps generalizing number level with
  | nil => rfl
  | cons s rest ih =>
      rw [walk, walk, hwrite]
      simp only [ih]

theorem fault_registering (t : Test) :
    ((e.registering regs).body pool options t).fault = (e.body pool options t).fault := by
  rw [body, body, walk_registering]

/-- A member of the class after another one, with the empty line between the two. -/
def following (lines : List Line) : List Line :=
  ⟨0, ""⟩ :: lines.map (Line.raise 1)

theorem memberLines_cons (first : List Line) (rest : List (List Line)) :
    memberLines (first :: rest) = first.map (Line.raise 1) ++ rest.flatMap following := by
  unfold memberLines
  induction rest generalizing first with
  | nil => simp
  | cons next rest ih =>
      simp only [List.map_cons, List.intersperse_cons_cons, List.flatten_cons, List.flatMap_cons,
        following] at ih ⊢
      rw [ih]
      rfl

theorem fill_ofMethod (he : e.hooks = .initial) (m : String × Test) :
    (Spot.ofMethod e pool options m).flatMap (Spot.fill regs) =
      following (Method.lines ⟨m.1, ((e.registering regs).body pool options m.2).lines⟩) := by
  have hlines : ((e.registering regs).body pool options m.2).lines =
      traceHead options m.2 ++ ((Hooks.initial.registerAll regs).get .inEachBegin).render ++
        (e.walk pool options 1 .start m.2.commands).lines ++
        ((Hooks.initial.registerAll regs).get .inEachEnd).render := by
    rw [body, walk_registering, registering, he]
  have hends (text : String) : (⟨0, text⟩ : Line).raise 1 = ⟨1, text⟩ := rfl
  rw [hlines, Method.lines, following, Spot.ofMethod]
  simp [Function.comp_def, Line.raise_raise, Line.raise_zero, hends]

theorem hookMember_registering (he : e.hooks = .initial) (kind : Hook.Kind) :
    (e.registering regs).hookMember kind =
      let h := { Hook.initial kind with registered := kind.linesIn regs }
      if h.isRendered then some h.render else none := by
  rw [hookMember, registering, he, Hooks.get_registerAll_initial]

theorem fill_member (he : e.hooks = .initial) {kind : Hook.Kind}
    (h : kind ∈ [Hook.Kind.beforeAll, .afterAll, .declareMethods]) :
    Spot.fill regs (.member kind) =
      ((e.registering regs).hookMember kind).toList.flatMap following := by
  rw [hookMember_registering he]
  dsimp only
  rw [Hook.isRendered_of_bare h, Spot.fill, Spot.kept, Spot.brought]
  by_cases hnone : kind.linesIn regs = []
  · simp [hnone]
  · simp [hnone, following, Hook.render, Spot.registered, Function.comp_def, Line.raise_raise]

/-! ## Files -/

/-- The spots of a file: those above the class, the members of the class, and the end of the class. -/
def spots (e : Exporter) (name : String) (members pool : List Test) (options : RenderOptions) :
    List Spot :=
  Spot.ofLines 0 [⟨0, ClassFile.marker⟩] ++ Spot.ofHook .declareDependencies 0 ++
    Spot.ofLines 0 [⟨0, ""⟩, ⟨0, "class " ++ Identifier.className name ++ " \x7b"⟩] ++
    Spot.ofHook .declareVariables 1 ++
    [.member .beforeAll] ++
    Spot.ofLines 0 [⟨0, ""⟩] ++ Spot.ofHook .beforeEach 1 ++
    Spot.ofLines 0 [⟨0, ""⟩] ++ Spot.ofHook .afterEach 1 ++
    [.member .afterAll] ++
    (sources members pool).flatMap (Spot.ofMethod e pool options) ++
    (if (sources members pool).any (·.2.opensWindow) then
      Spot.ofLines 0 [⟨0, ""⟩] ++ Spot.ofLines 1 Window.helper
    else []) ++
    [.member .declareMethods] ++
    Spot.ofLines 0 [⟨0, "\x7d"⟩]

theorem shallow_ofMethod (m : String × Test) : Spot.Shallow (Spot.ofMethod e pool options m) := by
  simp [Spot.ofMethod, Hook.initial, Hook.bare]

/-- Registered lines gain two levels at most, those of the class and of a method in it. -/
theorem shallow_spots : Spot.Shallow (e.spots name members pool options) := by
  have hmethods : Spot.Shallow ((sources members pool).flatMap (Spot.ofMethod e pool options)) := by
    intro s hs
    obtain ⟨m, -, hm⟩ := List.mem_flatMap.mp hs
    exact shallow_ofMethod m s hm
  have hwindow (opens : Bool) : Spot.Shallow (if opens then
      Spot.ofLines 0 [⟨0, ""⟩] ++ Spot.ofLines 1 Window.helper else []) := by
    cases opens with
    | false => exact List.forall_mem_nil _
    | true => simp
  simp [spots, hmethods, hwindow, Spot.gain, Hook.initial, Hook.method, Hook.bare]

/-- The hooks before the methods of a class: three that are always there, and two that may be. -/
theorem leadingHooks_registering (he : e.hooks = .initial) :
    leadingHooks.filterMap (e.registering regs).hookMember =
      ((Hooks.initial.registerAll regs).get .declareVariables).render ::
        (((e.registering regs).hookMember .beforeAll).toList ++
          [((Hooks.initial.registerAll regs).get .beforeEach).render,
            ((Hooks.initial.registerAll regs).get .afterEach).render] ++
          ((e.registering regs).hookMember .afterAll).toList) := by
  have hopening (kind : Hook.Kind) (h : kind ∈ [Hook.Kind.declareVariables, .beforeEach, .afterEach]) :
      (e.registering regs).hookMember kind =
        some ((Hooks.initial.registerAll regs).get kind).render := by
    rw [hookMember_registering he, Hooks.get_registerAll_initial]
    exact if_pos (Hook.isRendered_of_opening h)
  simp only [leadingHooks, List.filterMap_cons, List.filterMap_nil,
    hopening .declareVariables (by decide), hopening .beforeEach (by decide),
    hopening .afterEach (by decide)]
  cases (e.registering regs).hookMember .beforeAll <;>
    cases (e.registering regs).hookMember .afterAll <;> rfl

theorem layout_registering (he : e.hooks = .initial) (regs : List (Hook.Kind × Line)) (name : String)
    (members pool : List Test) (options : RenderOptions) :
    (e.registering regs).layout name ((e.registering regs).assembled members pool options) =
      (e.spots name members pool options).flatMap (Spot.fill regs) := by
  have hdependencies : (e.registering regs).hooks.get .declareDependencies =
      (Hooks.initial.registerAll regs).get .declareDependencies := by rw [registering, he]
  have hopens : ((e.registering regs).assembled members pool options).opensWindow =
      (sources members pool).any (·.2.opensWindow) := rfl
  have hmethods : (((e.registering regs).assembled members pool options).methods.map
      Method.lines).flatMap following =
      ((sources members pool).flatMap (Spot.ofMethod e pool options)).flatMap (Spot.fill regs) := by
    rw [List.flatMap_assoc, assembled, List.map_map, List.flatMap_map]
    exact List.flatMap_congr fun m _ => (fill_ofMethod he m).symm
  have hwindow (opens : Bool) : (if opens then [Window.helper] else []).flatMap following =
      (if opens then Spot.ofLines 0 [⟨0, ""⟩] ++ Spot.ofLines 1 Window.helper else []).flatMap
        (Spot.fill regs) := by
    cases opens with
    | false => rfl
    | true => simp [following, Line.raise_zero]
  have hmember (kind : Hook.Kind) (h : kind ∈ [Hook.Kind.beforeAll, .afterAll, .declareMethods]) :
      [Spot.member kind].flatMap (Spot.fill regs) =
        ((e.registering regs).hookMember kind).toList.flatMap following := by
    rw [List.flatMap_singleton, fill_member he h]
  rw [layout, Exporter.members, leadingHooks_registering he, hdependencies, hopens]
  simp only [List.cons_append, memberLines_cons, spots, List.flatMap_append, Spot.fill_ofLines,
    Spot.fill_ofHook, hmethods, hwindow, hmember .beforeAll (by decide),
    hmember .afterAll (by decide), hmember .declareMethods (by decide)]
  simp [following, Line.raise_zero]

/-- Registrations only insert. Whatever is registered, a class that comes out without comes out with
it, and the two files have the same spots: all lines of the first stand in the second, and the others
are what the registrations bring to their spots. How the lines of different hooks are mixed makes no
difference. If the levels of the registered lines leave room for the two that they gain at most, the
levels of all inserted lines are numbers of 64 bits. -/
theorem registrations_only_insert (he : e.hooks = .initial) {c : Class}
    (h : e.assemble name members pool options = .ok c) (regs : List (Hook.Kind × Line)) :
    ∃ c', (e.registering regs).assemble name members pool options = .ok c' ∧
      e.layout name c = (e.spots name members pool options).flatMap Spot.kept ∧
      (e.registering regs).layout name c' =
        (e.spots name members pool options).flatMap (Spot.fill regs) ∧
      Interleaved (e.layout name c) ((e.spots name members pool options).flatMap (Spot.brought regs))
        ((e.registering regs).layout name c') ∧
      (∀ regs' : List (Hook.Kind × Line),
        (∀ kind : Hook.Kind, kind.linesIn regs' = kind.linesIn regs) →
          e.registering regs' = e.registering regs) ∧
      ((∀ reg ∈ regs, reg.2.level + 2 < 2 ^ 64) →
        ∀ l ∈ (e.spots name members pool options).flatMap (Spot.brought regs), l.level < 2 ^ 64) := by
  obtain ⟨hexportable, rfl⟩ := assemble_eq_ok_iff.mp h
  have hregistering : (e.registering regs).Exportable name members pool options :=
    { hexportable with
      written := fun t ht => (fault_registering t).trans (hexportable.written t ht) }
  have hplain : e.layout name (e.assembled members pool options) =
      (e.spots name members pool options).flatMap Spot.kept := by
    have hnone : e.registering [] = e := rfl
    have hlayout := layout_registering he [] name members pool options
    rwa [hnone, Spot.fill_nil] at hlayout
  have hlayout := layout_registering he regs name members pool options
  refine ⟨_, assemble_eq_ok_iff.mpr ⟨hregistering, rfl⟩, hplain, hlayout, ?_, fun regs' hsame => ?_,
    fun hroom l hl => ?_⟩
  · rw [hplain, hlayout]
    exact Spot.interleaved_fill regs _
  · rw [registering, registering, Hooks.registerAll_congr hsame]
  · obtain ⟨s, hs, hl⟩ := List.mem_flatMap.mp hl
    have hregs : ∀ reg ∈ regs, reg.2.level ≤ 2 ^ 64 - 3 := by
      intro reg hreg
      have := hroom reg hreg
      omega
    have hlevel := Spot.level_of_mem_brought (shallow_spots s hs) hregs hl
    omega

/-- Lines for two hooks, mixed: one hook becomes a method, and the other has its line in a test. -/
theorem registrations_only_insert_of_start :
    let t : Test := ⟨"1", "main", []⟩
    let options : RenderOptions := ⟨"", false, false⟩
    let regs : List (Hook.Kind × Line) := [(.beforeAll, ⟨0, "if ($debug) \x7b"⟩),
      (.inEachBegin, ⟨0, "$i->maximizeWindow();"⟩), (.beforeAll, ⟨1, "codecept_debug('start');"⟩),
      (.beforeAll, ⟨0, "\x7d"⟩)]
    let brought : List Line := [⟨0, ""⟩, ⟨1, "public function _initialize() \x7b"⟩,
      ⟨2, "if ($debug) \x7b"⟩, ⟨3, "codecept_debug('start');"⟩, ⟨2, "\x7d"⟩, ⟨1, "\x7d"⟩,
      ⟨2, "$i->maximizeWindow();"⟩]
    Exporter.default.hooks = .initial ∧
    ∃ c c', Exporter.default.assemble "main" [t] [] options = .ok c ∧
      (Exporter.default.registering regs).assemble "main" [t] [] options = .ok c' ∧
      Interleaved (Exporter.default.layout "main" c) brought
        ((Exporter.default.registering regs).layout "main" c') ∧
      (∀ reg ∈ regs, reg.2.level + 2 < 2 ^ 64) ∧ ∀ l ∈ brought, l.level < 2 ^ 64 := by
  intro t options regs brought
  have hexportable : Exporter.default.Exportable "main" [t] [] options :=
    .of_pool (by decide) (by decide) (by simp [t]) (by decide) (by decide) (by decide) (by decide)
  have hclass := assemble_eq_ok_iff.mpr ⟨hexportable, rfl⟩
  have hroom : ∀ reg ∈ regs, reg.2.level + 2 < 2 ^ 64 := by decide
  obtain ⟨c', hc', -, -, hinterleaved, -, hfits⟩ := registrations_only_insert rfl hclass regs
  have hbrought : (Exporter.default.spots "main" [t] [] options).flatMap (Spot.brought regs) =
      brought := by decide +kernel
  rw [hbrought] at hinterleaved hfits
  exact ⟨rfl, _, c', hclass, hc', hinterleaved, hroom, hfits hroom⟩

end Exporter

end CestWriter
