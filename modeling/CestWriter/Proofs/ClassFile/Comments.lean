import CestWriter.Proofs.ClassFile.Assembly

/-! # Comments leave the code alone

An export with comments and one without go through the same steps. They fail together, and their
lines differ in comments alone, each of which stands above its step at the level of that step. -/

namespace CestWriter

/-- The same options without any comments. -/
def RenderOptions.silent (options : RenderOptions) : RenderOptions :=
  { options with originTracing := false, descriptionComments := false }

/-! ## Lines with comments -/

/-- Lines, and the same lines with comments between them. -/
inductive Commented : List Line → List Line → Prop
  | nil : Commented [] []
  | keep (l : Line) {plain lines : List Line} (h : Commented plain lines) :
    Commented (l :: plain) (l :: lines)
  | insert {l : Line} (hl : Text.startsWith "// " l.statement = true) {plain lines : List Line}
    (h : Commented plain lines) : Commented plain (l :: lines)

namespace Commented

variable {plain lines plain' lines' : List Line}

theorem refl : ∀ lines, Commented lines lines
  | [] => .nil
  | l :: lines => .keep l (refl lines)

theorem append (h : Commented plain lines) (h' : Commented plain' lines') :
    Commented (plain ++ plain') (lines ++ lines') := by
  induction h with
  | nil => exact h'
  | keep l _ ih => exact .keep l ih
  | insert hl _ ih => exact .insert hl ih

theorem of_comments (h : ∀ l ∈ lines, Text.startsWith "// " l.statement = true) :
    Commented [] lines := by
  induction lines with
  | nil => exact .nil
  | cons l lines ih =>
      obtain ⟨hl, hrest⟩ := List.forall_mem_cons.mp h
      exact .insert hl (ih hrest)

theorem raise (n : Nat) (h : Commented plain lines) :
    Commented (plain.map (Line.raise n)) (lines.map (Line.raise n)) := by
  induction h with
  | nil => exact .nil
  | keep l _ ih => exact .keep (l.raise n) ih
  | @insert l hl _ _ _ ih => exact .insert (l := l.raise n) hl ih

theorem memberLines {members members' : List (List Line)}
    (h : List.Forall₂ Commented members members') :
    Commented (Exporter.memberLines members) (Exporter.memberLines members') := by
  unfold Exporter.memberLines
  induction h with
  | nil => exact .nil
  | @cons m m' rest rest' hm hrest ih =>
      cases hrest with
      | nil => simpa using hm.raise 1
      | cons hnext hlast =>
          simp only [List.map_cons, List.intersperse_cons_cons, List.flatten_cons] at ih ⊢
          exact (hm.raise 1).append ((refl _).append ih)

end Commented

namespace Exporter

variable {e : Exporter} {pool : List Test} {options : RenderOptions}

/-! ## Comments above a step -/

/-- What stands above a step, all of it at one level: a line with the number of the step if steps are
traced, and a line with its description if it has one and descriptions are shown. -/
structure CommentsAbove (options : RenderOptions) (base number : Nat) (s : Step) (lines : List Line) :
    Prop where
  length_eq : lines.length = (if options.originTracing then 1 else 0) +
    if options.descriptionComments && !s.comment.isEmpty then 1 else 0
  level_eq : ∀ l ∈ lines, l.level = base
  traced : options.originTracing = true → ∃ l ∈ lines.head?,
    Text.startsWith ("// " ++ toString number ++ " | ") l.statement = true
  described : options.descriptionComments = true → s.comment ≠ "" → ∃ l ∈ lines.getLast?,
    l.statement = "// " ++ Text.oneLine s.comment

theorem commentsAbove (options : RenderOptions) (base number : Nat) (s : Step) :
    CommentsAbove options base number s (comments options base number s) := by
  refine ⟨?_, fun l hl => ?_, fun htraced => ?_, fun hdescribed hcomment => ?_⟩
  · rw [comments, List.length_append, apply_ite List.length, apply_ite List.length]
    rfl
  · rw [comments, List.mem_append, List.mem_ite_nil_right, List.mem_ite_nil_right] at hl
    rcases hl with ⟨-, hl⟩ | ⟨-, hl⟩
    · rw [List.mem_singleton.mp hl]
    · rw [List.mem_singleton.mp hl]
  · have hlead : Text.oneLine ("// " ++ toString number ++ " | ") = "// " ++ toString number ++ " | " := by
      rw [Text.oneLine_append, Text.oneLine_append, Text.oneLine_toString]
      rfl
    rw [comments, if_pos htraced, List.singleton_append, List.head?_cons]
    refine ⟨_, rfl, ?_⟩
    apply Text.startsWith_oneLine hlead
    iterate 5 apply Text.startsWith_append
    exact Text.startsWith_self _
  · have hshown : (options.descriptionComments && !s.comment.isEmpty) = true := by
      simp [hdescribed, hcomment]
    rw [comments, if_pos hshown]
    refine ⟨_, List.getLast?_concat, ?_⟩
    rw [Text.oneLine_append]
    rfl

/-! ## Bodies -/

theorem walk_congr {options' : RenderOptions} (hurl : options'.baseUrl = options.baseUrl)
    (number : Nat) (level : Level) (steps : List Step) :
    (e.walk pool options' number level steps).runs = (e.walk pool options number level steps).runs ∧
      (e.walk pool options' number level steps).opensWindow =
        (e.walk pool options number level steps).opensWindow ∧
      (e.walk pool options' number level steps).fault =
        (e.walk pool options number level steps).fault := by
  induction steps generalizing number level with
  | nil => exact ⟨rfl, rfl, rfl⟩
  | cons s rest ih =>
      rw [walk, walk, writeStep_congr hurl]
      cases e.writeStep pool options s with
      | mk run result =>
          cases result with
          | error fault => exact ⟨rfl, rfl, rfl⟩
          | ok f =>
              obtain ⟨hruns, hopens, hfault⟩ := ih (number + 1) (level.place f).2
              exact ⟨by simp only [hruns], by simp only [hopens], hfault⟩

theorem body_congr (e : Exporter) (pool : List Test) {options' : RenderOptions}
    (hurl : options'.baseUrl = options.baseUrl) (t : Test) :
    (e.body pool options' t).runs = (e.body pool options t).runs ∧
      (e.body pool options' t).opensWindow = (e.body pool options t).opensWindow ∧
      (e.body pool options' t).fault = (e.body pool options t).fault :=
  walk_congr hurl 1 .start t.commands

/-- The lines of placed steps, each step below its comments. -/
theorem commented_placedLines (number : Nat) (placed : List Placed) :
    Commented (placed.flatMap Placed.lines) (placedLines options number placed) := by
  induction placed generalizing number with
  | nil => exact .nil
  | cons p placed ih =>
      have habove : Commented [] (comments options p.base number p.step) :=
        .of_comments startsWith_comments
      rw [List.flatMap_cons, placedLines_cons]
      exact (habove.append (.refl p.lines)).append (ih (number + 1))

theorem placedLines_silent (number : Nat) (placed : List Placed) :
    placedLines options.silent number placed = placed.flatMap Placed.lines := by
  have hcomments (level number : Nat) (s : Step) : comments options.silent level number s = [] := rfl
  simp only [placedLines, hcomments, List.nil_append]
  rw [← List.flatMap_map (fun q : Placed × Nat => q.1), List.zipIdx_map_fst]

theorem length_placedLines (number : Nat) (placed : List Placed) :
    (placedLines options number placed).length = (placed.flatMap Placed.lines).length +
      (if options.originTracing then placed.length else 0) +
      if options.descriptionComments then placed.countP (fun p => !p.step.comment.isEmpty) else 0 := by
  induction placed generalizing number with
  | nil => simp [placedLines]
  | cons p placed ih =>
      rw [placedLines_cons, List.length_append, List.length_append, ih,
        (commentsAbove options p.base number p.step).length_eq, List.flatMap_cons, List.length_append,
        List.length_cons, List.countP_cons]
      cases options.originTracing <;> cases options.descriptionComments <;>
        cases p.step.comment.isEmpty <;> simp <;> omega

/-- A method that is made of a test, without comments and with them. Its steps are placed the same,
and the comments of each stand above it, at the level that its lines are counted from. -/
structure CommentedMethod (e : Exporter) (pool : List Test) (options : RenderOptions)
    (plain commented : Method) (t : Test) (placed : List Placed) : Prop where
  name_eq : commented.name = plain.name
  placement : e.Placement pool options .start t.commands placed
  plain_eq : plain.body = (e.hooks.get .inEachBegin).render ++ placed.flatMap Placed.lines ++
    (e.hooks.get .inEachEnd).render
  commented_eq : commented.body = traceHead options t ++ (e.hooks.get .inEachBegin).render ++
    (placed.zipIdx 1).flatMap (fun (p, n) => comments options p.base n p.step ++ p.lines) ++
    (e.hooks.get .inEachEnd).render
  /-- The first step has number one, and its comments stand at the level of its lines. -/
  above : ∀ p n, (p, n) ∈ placed.zipIdx 1 →
    CommentsAbove options p.base n p.step (comments options p.base n p.step)
  /-- Two lines and one for each step are added if steps are traced, and one for each description. -/
  length_eq : commented.body.length = plain.body.length +
    (if options.originTracing then 2 + t.commands.length else 0) +
    if options.descriptionComments then t.commands.countP (fun s => !s.comment.isEmpty) else 0

theorem CommentedMethod.lines_commented {m m' : Method} {t : Test} {placed : List Placed}
    (h : e.CommentedMethod pool options m m' t placed) : Commented m.lines m'.lines := by
  have hhead : Commented [] (traceHead options t) := .of_comments startsWith_traceHead
  have hbody : Commented m.body m'.body := by
    rw [h.plain_eq, h.commented_eq]
    exact ((hhead.append (.refl _)).append (commented_placedLines 1 placed)).append (.refl _)
  rw [Method.lines, Method.lines, h.name_eq]
  exact .keep _ ((hbody.raise 1).append (.refl _))

theorem exists_commentedMethod {t : Test} (name : String)
    (h : (e.body pool options t).fault = none) :
    ∃ placed, e.CommentedMethod pool options ⟨name, (e.body pool options.silent t).lines⟩
      ⟨name, (e.body pool options t).lines⟩ t placed := by
  obtain ⟨placed, hplaced⟩ := fault_eq_none_iff.mp h
  have hurl : options.silent.baseUrl = options.baseUrl := rfl
  have hplain : (e.body pool options.silent t).lines = (e.hooks.get .inEachBegin).render ++
      placed.flatMap Placed.lines ++ (e.hooks.get .inEachEnd).render := by
    rw [(hplaced.congr hurl).body_eq, bodyLines, placedLines_silent]
    rfl
  have hcommented : (e.body pool options t).lines = e.bodyLines options t placed := by
    rw [hplaced.body_eq]
  refine ⟨placed, rfl, hplaced, hplain, hcommented, fun _ _ _ => commentsAbove .., ?_⟩
  have hhead : (traceHead options t).length = if options.originTracing then 2 else 0 := by
    rw [traceHead, apply_ite List.length]
    rfl
  simp only [hplain, hcommented, bodyLines, List.length_append, hhead, length_placedLines,
    ← hplaced.steps_eq, List.length_map, List.countP_map]
  cases options.originTracing <;> cases options.descriptionComments <;>
    simp [Function.comp_def] <;> omega

/-! ## Classes -/

/-- A class without comments and with them. -/
structure CommentedClass (e : Exporter) (pool : List Test) (options : RenderOptions)
    (plain commented : Class) : Prop where
  methods : List.Forall₂ (fun m m' => ∃ t placed, e.CommentedMethod pool options m m' t placed)
    plain.methods commented.methods
  helpers_eq : commented.helpers = plain.helpers
  opensWindow_eq : commented.opensWindow = plain.opensWindow

namespace CommentedClass

variable {plain commented : Class}

theorem empty : e.CommentedClass pool options .empty .empty :=
  ⟨.nil, rfl, rfl⟩

theorem declares_eq (h : e.CommentedClass pool options plain commented) (name : String) :
    commented.declares name = plain.declares name := by
  have hnames : commented.methods.map (·.name) = plain.methods.map (·.name) := by
    rw [eq_comm, ← List.forall₂_eq_eq_eq, List.forall₂_map_left_iff, List.forall₂_map_right_iff]
    exact h.methods.imp fun _ _ ⟨_, _, hm⟩ => hm.name_eq.symm
  rw [Bool.eq_iff_iff, Class.declares_iff, Class.declares_iff, hnames]

theorem noteRun (h : e.CommentedClass pool options plain commented) (i : Nat) :
    Alike (e.CommentedClass pool options) (Class.noteRun pool plain i)
      (Class.noteRun pool commented i) := by
  unfold Class.noteRun
  dsimp only
  rw [h.helpers_eq]
  split
  · split
    · exact .ok h
    · exact .error _
  · exact .ok ⟨h.methods, rfl, h.opensWindow_eq⟩

theorem addMethod (h : e.CommentedClass pool options plain commented) (name testName : String)
    (t : Test) :
    Alike (e.CommentedClass pool options)
      (plain.addMethod pool name testName (e.body pool options.silent t))
      (commented.addMethod pool name testName (e.body pool options t)) := by
  have hurl : options.silent.baseUrl = options.baseUrl := rfl
  obtain ⟨hruns, hopens, hfault⟩ := body_congr e pool hurl t
  rw [Class.addMethod_eq, Class.addMethod_eq, h.declares_eq]
  split
  · exact .error _
  · rw [hruns]
    refine (Alike.foldlM (fun i _ _ _ h => h.noteRun i) h).bind fun plain commented h => ?_
    rw [hfault]
    cases hf : (e.body pool options t).fault with
    | some fault => exact .error fault
    | none =>
        obtain ⟨placed, hm⟩ := exists_commentedMethod name hf
        refine .ok ⟨List.rel_append h.methods (.cons ⟨t, placed, hm⟩ .nil), h.helpers_eq, ?_⟩
        simp only [h.opensWindow_eq, hopens]

theorem addMember (h : e.CommentedClass pool options plain commented) (t : Test) :
    Alike (e.CommentedClass pool options) (e.addMember pool options.silent plain t)
      (e.addMember pool options commented t) := by
  unfold Exporter.addMember
  split
  · exact .error _
  · exact h.addMethod _ _ t

theorem addHelpers (h : e.CommentedClass pool options plain commented) (fuel k : Nat) :
    Alike (e.CommentedClass pool options) (e.addHelpers pool options.silent fuel k plain)
      (e.addHelpers pool options fuel k commented) := by
  induction fuel generalizing k plain commented with
  | zero => exact .ok h
  | succ fuel ih =>
      cases hnext : plain.helpers[k]? with
      | none =>
          rw [Exporter.addHelpers, Exporter.addHelpers, h.helpers_eq, hnext]
          exact .ok h
      | some next =>
          obtain ⟨name, i⟩ := next
          rw [addHelpers_succ hnext, addHelpers_succ (h.helpers_eq ▸ hnext)]
          exact (h.addMethod _ _ _).bind fun _ _ h => ih h (k + 1)

/-- The lines of a file differ in comments alone. -/
theorem layout (h : e.CommentedClass pool options plain commented) (name : String) :
    Commented (e.layout name plain) (e.layout name commented) := by
  have hmethods : List.Forall₂ Commented (plain.methods.map Method.lines)
      (commented.methods.map Method.lines) := by
    rw [List.forall₂_map_left_iff, List.forall₂_map_right_iff]
    exact h.methods.imp fun _ _ ⟨_, _, hm⟩ => hm.lines_commented
  have hmembers : List.Forall₂ Commented (e.members plain) (e.members commented) := by
    have hrefl : ∀ ms : List (List Line), List.Forall₂ Commented ms ms := fun ms =>
      List.forall₂_same.mpr fun _ _ => .refl _
    unfold Exporter.members
    rw [h.opensWindow_eq]
    exact List.rel_append (List.rel_append (List.rel_append (hrefl _) hmethods) (hrefl _)) (hrefl _)
  exact ((Commented.refl _).append (.memberLines hmembers)).append (.refl _)

end CommentedClass

theorem assemble_alike (e : Exporter) (name : String) (members pool : List Test)
    (options : RenderOptions) :
    Alike (e.CommentedClass pool options) (e.assemble name members pool options.silent)
      (e.assemble name members pool options) := by
  rw [assemble_eq, assemble_eq]
  split
  · exact .error _
  · refine (Alike.foldlM (fun t _ _ _ h => CommentedClass.addMember h t)
      CommentedClass.empty).bind fun _ _ h => ?_
    refine (h.addHelpers pool.length 0).bind fun plain commented h => ?_
    rw [h.opensWindow_eq, h.declares_eq]
    split
    · exact .error _
    · exact .ok h

/-- The methods of both classes are made of the same tests, one for one. -/
theorem forall₂_methods_assembled {members : List Test}
    (hwritten : ∀ t, Involved pool members t → (e.body pool options t).fault = none) :
    List.Forall₂ (fun m m' => ∃ source ∈ sources members pool, m.name = source.1 ∧
        ∃ placed, e.CommentedMethod pool options m m' source.2 placed)
      (e.assembled members pool options.silent).methods
      (e.assembled members pool options).methods := by
  rw [assembled, assembled, List.forall₂_map_left_iff, List.forall₂_map_right_iff]
  refine List.forall₂_same.mpr fun source hsource => ⟨source, hsource, rfl, ?_⟩
  exact exists_commentedMethod source.1
    (hwritten source.2 (involved_iff_mem_sources.mpr ⟨source, hsource, rfl⟩))

/-- Comments never disturb the code. An export with comments fails if the one without them does, and
in the same way. Otherwise its lines are those without comments and further ones, which start with
slashes: two at the head of a traced method, and a numbered one and a description above the lines of
each step, at the level that these are counted from. -/
theorem comments_disturb_nothing (e : Exporter) (name : String) (members pool : List Test)
    (options : RenderOptions) :
    (∀ fault, e.exportClass name members pool options = .error fault ↔
      e.exportClass name members pool options.silent = .error fault) ∧
    ∀ c, e.assemble name members pool options = .ok c →
      ∃ plain, e.assemble name members pool options.silent = .ok plain ∧
        Commented (e.layout name plain) (e.layout name c) ∧
        List.Forall₂ (fun m m' => ∃ source ∈ sources members pool, m.name = source.1 ∧
          ∃ placed, e.CommentedMethod pool options m m' source.2 placed) plain.methods c.methods := by
  have halike := assemble_alike e name members pool options
  constructor
  · intro fault
    rw [exportClass, exportClass, map_eq_error_iff, map_eq_error_iff]
    exact halike.error_iff.symm
  · intro c hc
    rw [hc] at halike
    obtain ⟨plain, hplain, hcommented⟩ := halike.exists_left
    obtain ⟨hexportable, rfl⟩ := assemble_eq_ok_iff.mp hc
    refine ⟨plain, hplain, hcommented.layout name, ?_⟩
    obtain ⟨-, rfl⟩ := assemble_eq_ok_iff.mp hplain
    exact forall₂_methods_assembled hexportable.written

/-- A test that closes a block which it has not opened. -/
theorem comments_disturb_nothing_of_end :
    let close : Step := { Step.blank with command := "end", comment := "too late" }
    let t : Test := ⟨"1", "late", [close]⟩
    let options : RenderOptions := ⟨"", true, true⟩
    let e : Exporter := ⟨.builtin, .webDriver, .initial⟩
    (∃ fault, e.exportClass "" [t] [] options = .error fault ∧
      e.exportClass "" [t] [] options.silent = .error fault) ∧
    ∃ c plain, e.assemble "late" [t] [] options = .ok c ∧
      e.assemble "late" [t] [] options.silent = .ok plain ∧
      Commented (e.layout "late" plain) (e.layout "late" c) ∧
      List.Forall₂ (fun m m' => ∃ source ∈ sources [t] [], m.name = source.1 ∧
        ∃ placed, e.CommentedMethod [] options m m' source.2 placed) plain.methods c.methods := by
  intro close t options e
  have hend : Action.ofCommand? close.command = some .endBlock := by decide +kernel
  have hwritten : ∀ s ∈ t.commands, ∃ f, (e.writeStep [] options s).2 = .ok f := by
    have hemit : Registry.builtin.emit (e.setting options) close = .ok _ :=
      (Registry.emit_builtin_eq_ok_iff (by decide)).mpr ⟨_, _, hend, rfl, rfl⟩
    have hstep : e.writeStep [] options close = _ := writeStep_eq (by decide) hemit
    exact List.forall_mem_singleton.mpr ⟨_, congrArg Prod.snd hstep⟩
  have hexportable : e.Exportable "late" [t] [] options := by
    refine .of_pool (by decide) (by decide) ?_ (by decide) (by decide) (by decide) (by decide)
    exact List.forall_mem_singleton.mpr hwritten
  have hclass := assemble_eq_ok_iff.mpr ⟨hexportable, rfl⟩
  obtain ⟨hfails, -⟩ := comments_disturb_nothing e "" [t] [] options
  obtain ⟨-, hcomments⟩ := comments_disturb_nothing e "late" [t] [] options
  obtain ⟨plain, hplain⟩ := hcomments _ hclass
  have hrefused : e.exportClass "" [t] [] options = .error (.invalidName "") := rfl
  exact ⟨⟨_, hrefused, (hfails _).mp hrefused⟩, _, plain, hclass, hplain⟩

end Exporter

end CestWriter
