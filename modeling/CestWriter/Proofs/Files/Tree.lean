import CestWriter.Files.Node
import CestWriter.Proofs.Emission.Registry
import CestWriter.Proofs.Fallible

/-! # Ways through a tree of files

A place is found again, in a tree that has changed elsewhere, by the names that lead to it. -/

namespace CestWriter

namespace Node

/-- The node at the end of a way of names. -/
def at? : Node → List String → Option Node
  | n, [] => some n
  | n, name :: rest => (n.child? name).bind fun m => m.at? rest

/-- What a node is, without the entries of a directory. -/
def kind : Node → Node
  | directory _ => directory []
  | other => other

def kindAt? (n : Node) (way : List String) : Option Node :=
  (n.at? way).map kind

/-- What takes all that is written to it and keeps nothing. -/
inductive IsDevice : Node → Prop
  | sink : IsDevice .sink
  | input : IsDevice .input

/-- All ways of the first tree are there in the second, and lead to directories where they did. -/
def Grows (r r' : Node) : Prop :=
  ∀ way n, r.at? way = some n → ∃ n', r'.at? way = some n' ∧ (n.isDirectory → n'.isDirectory)

/-- The second tree has a file at `way`, in place of a file or of nothing, and is the first tree
everywhere else. -/
structure Written (way : List String) (text : String) (r r' : Node) : Prop where
  file : r'.at? way = some (.file text)
  replaced : ∀ n, r.at? way = some n → n.isDirectory = false
  same : ∀ v, v ≠ way → r'.kindAt? v = r.kindAt? v

variable {n m r r' : Node}

theorem isDirectory_kind : n.kind.isDirectory = n.isDirectory := by
  cases n <;> rfl

theorem kind_eq_directory_iff : n.kind = .directory [] ↔ n.isDirectory = true := by
  cases n <;> simp [kind, isDirectory]

theorem at?_append (v w : List String) : n.at? (v ++ w) = (n.at? v).bind fun m => m.at? w := by
  induction v generalizing n with
  | nil => rfl
  | cons name v ih =>
      rw [List.cons_append, at?, at?, Option.bind_assoc]
      exact Option.bind_congr fun _ _ => ih

theorem at?_append_single {v : List String} (h : r.at? v = some n) (name : String) :
    r.at? (v ++ [name]) = n.child? name := by
  rw [at?_append, h, Option.bind_some, at?]
  exact Option.bind_fun_some _

theorem isDirectory_of_child? {name : String} (h : n.child? name = some m) : n.isDirectory = true := by
  cases n with
  | directory entries => rfl
  | file | sink | input => cases h

theorem kind_put (name : String) : (n.put name m).kind = n.kind := by
  cases n with
  | directory entries =>
      rw [put]
      split <;> rfl
  | file | sink | input => rfl

private theorem lookup_map_replaced {entries : List (String × Node)} {name other : String}
    (h : other ≠ name) :
    (entries.map fun e => if e.1 = name then (name, m) else e).lookup other = entries.lookup other := by
  induction entries with
  | nil => rfl
  | cons e rest ih =>
      obtain ⟨key, old⟩ := e
      rw [List.map_cons]
      split_ifs with he
      · obtain rfl : key = name := he
        rw [Table.lookup_cons, Table.lookup_cons, if_neg h, if_neg h, ih]
      · rw [Table.lookup_cons, Table.lookup_cons, ih]

private theorem lookup_map_replacing {entries : List (String × Node)} {name : String}
    (h : entries.any (·.1 == name) = true) :
    (entries.map fun e => if e.1 = name then (name, m) else e).lookup name = some m := by
  induction entries with
  | nil => cases h
  | cons e rest ih =>
      obtain ⟨key, old⟩ := e
      rw [List.map_cons]
      split_ifs with he
      · rw [Table.lookup_cons, if_pos rfl]
      · rw [List.any_cons, Bool.or_eq_true, beq_iff_eq] at h
        rw [Table.lookup_cons, if_neg (Ne.symm he), ih (h.resolve_left he)]

theorem child?_put (h : n.isDirectory = true) (name other : String) :
    (n.put name m).child? other = if other = name then some m else n.child? other := by
  cases n with
  | file | sink | input => cases h
  | directory entries =>
      rw [put]
      split_ifs with hany heq heq
      · subst heq
        exact lookup_map_replacing hany
      · exact lookup_map_replaced heq
      · subst heq
        have hnone : entries.lookup other = none := List.lookup_eq_none_iff.mpr fun e he =>
          bne_iff_ne.mpr fun h => hany (List.any_eq_true.mpr ⟨e, he, beq_iff_eq.mpr h.symm⟩)
        rw [child?, List.lookup_append, hnone, Option.none_or, Table.lookup_cons, if_pos rfl]
      · rw [child?, List.lookup_append, Table.lookup_cons, if_neg heq]
        exact Option.or_none

theorem grows_of_kept (h : ∀ v k, r.kindAt? v = some k → r'.kindAt? v = some k) : r.Grows r' := by
  intro way n hn
  have hkind := h way n.kind (by rw [kindAt?, hn]; rfl)
  obtain ⟨n', hn', he⟩ := Option.map_eq_some_iff.mp hkind
  exact ⟨n', hn', fun hd => by rwa [← isDirectory_kind, he, isDirectory_kind]⟩

theorem Written.grows {way : List String} {text : String} (h : Written way text r r') : r.Grows r' := by
  intro v n hn
  by_cases hv : v = way
  · subst hv
    exact ⟨_, h.file, fun hd => by simp [h.replaced n hn] at hd⟩
  · have hkind : r'.kindAt? v = some n.kind := by rw [h.same v hv, kindAt?, hn]; rfl
    obtain ⟨n', hn', he⟩ := Option.map_eq_some_iff.mp hkind
    exact ⟨n', hn', fun hd => by rwa [← isDirectory_kind, he, isDirectory_kind]⟩

/-- Nothing is beneath what is no directory. -/
theorem at?_beneath {way : List String} (h : ∀ n, r.at? way = some n → n.isDirectory = false)
    (name : String) (w : List String) : r.at? (way ++ name :: w) = none := by
  rw [at?_append, Option.bind_eq_none_iff]
  intro n hn
  rw [at?, Option.bind_eq_none_iff]
  intro m hm
  exact absurd (isDirectory_of_child? hm) (by rw [h n hn]; exact Bool.false_ne_true)

end Node

namespace Place

/-- The names that lead from the top to a place. -/
def way (p : Place) : List String :=
  (p.above.map Prod.fst).reverse

/-- The place is one of the tree. -/
inductive In (r : Node) : Place → Prop
  | top : In r (.top r)
  | inside {p : Place} {name : String} {n : Node} (h : In r p) (he : p.node.child? name = some n) :
      In r ⟨n, (name, p.node) :: p.above⟩

/-- Where a name leads from a directory. -/
inductive Step (p : Place) (name : String) : Place → Prop
  | stay (h : name = ".") : Step p name p
  | up (h : name = "..") : Step p name p.up
  | down {n : Node} (hdot : name ≠ ".") (hdots : name ≠ "..") (hsize : name.utf8ByteSize ≤ longestName)
      (he : p.node.child? name = some n) : Step p name ⟨n, (name, p.node) :: p.above⟩

variable {r r' n : Node} {p p' q : Place} {name : String}

/-! ## Steps -/

theorem step_eq_ok_iff : p.step name = .ok q ↔ p.node.isDirectory = true ∧ Step p name q := by
  cases hp : p.node with
  | file | sink | input => simp [step, hp, Node.isDirectory]
  | directory entries =>
      simp only [step, hp, Node.isDirectory, true_and]
      constructor
      · intro h
        split_ifs at h with hdot hdots hsize
        · exact Except.ok.inj h ▸ .stay hdot
        · exact Except.ok.inj h ▸ .up hdots
        · split at h
          · rename_i n hn
            rw [← hp] at h
            exact Except.ok.inj h ▸ .down hdot hdots (Nat.not_lt.mp hsize) (by rwa [hp])
          · cases h
      · rintro (h | h | ⟨hdot, hdots, hsize, he⟩)
        · rw [if_pos h]
        · rw [if_neg (by simp [h]), if_pos h]
        · rw [hp, Node.child?] at he
          rw [if_neg hdot, if_neg hdots, if_neg (Nat.not_lt.mpr hsize), he, hp]

/-- A name that fits and is not one of dots stands for an entry. -/
theorem step_eq_child (hd : p.node.isDirectory = true) (hdot : name ≠ ".") (hdots : name ≠ "..")
    (hsize : name.utf8ByteSize ≤ longestName) : p.step name =
      match p.node.child? name with
      | some n => .ok ⟨n, (name, p.node) :: p.above⟩
      | none => .error .noSuchFile := by
  cases hp : p.node with
  | file | sink | input => simp [hp, Node.isDirectory] at hd
  | directory entries =>
      simp only [step, hp]
      rw [if_neg hdot, if_neg hdots, if_neg (Nat.not_lt.mpr hsize)]
      rfl

/-- A name that leads nowhere is free for a new entry. -/
theorem step_eq_noSuchFile (h : p.step name = .error .noSuchFile) :
    p.node.isDirectory = true ∧ p.node.child? name = none ∧ name.utf8ByteSize ≤ longestName := by
  cases hp : p.node with
  | file | sink | input => simp [step, hp] at h
  | directory entries =>
      simp only [step, hp] at h
      split_ifs at h with hdot hdots hsize
      · cases h
      · split at h
        · cases h
        · rename_i hnone
          exact ⟨rfl, hnone, Nat.not_lt.mp hsize⟩

theorem In.step (h : p.In r) (hs : Step p name q) : q.In r := by
  cases hs with
  | stay => exact h
  | up =>
      cases h with
      | top => exact .top
      | inside h => exact h
  | down _ _ _ he => exact .inside h he

theorem walk_cons {names : List String} :
    p.walk (name :: names) = .ok q ↔ ∃ mid, p.step name = .ok mid ∧ mid.walk names = .ok q := by
  rw [walk, List.foldlM_cons]
  exact bind_eq_ok

theorem walk_singleton : p.walk [name] = p.step name := by
  rw [walk, List.foldlM_cons]
  cases p.step name <;> rfl

theorem walk_append {v w : List String} :
    p.walk (v ++ w) = .ok q ↔ ∃ mid, p.walk v = .ok mid ∧ mid.walk w = .ok q := by
  rw [walk, List.foldlM_append]
  exact bind_eq_ok

theorem In.walk {names : List String} (h : p.In r) (hw : p.walk names = .ok q) : q.In r := by
  induction names generalizing p with
  | nil => exact Except.ok.inj hw ▸ h
  | cons name names ih =>
      obtain ⟨mid, hmid, hw⟩ := walk_cons.mp hw
      exact ih (h.step (step_eq_ok_iff.mp hmid).2) hw

/-! ## Ways -/

theorem way_inside : way ⟨n, (name, p.node) :: p.above⟩ = p.way ++ [name] := by
  rw [way, List.map_cons, List.reverse_cons, way]

theorem In.at?_way (h : p.In r) : r.at? p.way = some p.node := by
  induction h with
  | top => rfl
  | inside _ he ih => rw [way_inside, Node.at?_append_single ih, he]

/-- Two places at the end of one way have the nodes of one way above them. -/
theorem In.step_mono (hr : r.Grows r') (h : p.In r) (h' : p'.In r') (hway : p'.way = p.way)
    (hs : p.step name = .ok q) : ∃ q', p'.step name = .ok q' ∧ q'.In r' ∧ q'.way = q.way := by
  obtain ⟨hd, hs⟩ := step_eq_ok_iff.mp hs
  have hd' : p'.node.isDirectory = true := by
    obtain ⟨n', hn', hkeeps⟩ := hr _ _ h.at?_way
    rw [← hway, h'.at?_way] at hn'
    exact Option.some.inj hn' ▸ hkeeps hd
  suffices hq : ∃ q', Step p' name q' ∧ q'.way = q.way by
    obtain ⟨q', hs', hq⟩ := hq
    exact ⟨q', step_eq_ok_iff.mpr ⟨hd', hs'⟩, h'.step hs', hq⟩
  cases hs with
  | stay hdot => exact ⟨p', .stay hdot, hway⟩
  | up hdots =>
      have way_up : ∀ p : Place, p.up.way = p.way.dropLast := by
        rintro ⟨n, _ | ⟨e, above⟩⟩
        · rfl
        · simp [up, way]
      exact ⟨p'.up, .up hdots, by rw [way_up, way_up, hway]⟩
  | @down n hdot hdots hsize he =>
      have hn : r.at? (p.way ++ [name]) = some n := by rw [Node.at?_append_single h.at?_way, he]
      obtain ⟨n', hn', -⟩ := hr _ _ hn
      rw [← hway, Node.at?_append_single h'.at?_way] at hn'
      exact ⟨_, .down hdot hdots hsize hn', by rw [way_inside, way_inside, hway]⟩

theorem In.walk_mono {names : List String} (hr : r.Grows r') (h : p.In r) (h' : p'.In r')
    (hway : p'.way = p.way) (hw : p.walk names = .ok q) :
    ∃ q', p'.walk names = .ok q' ∧ q'.In r' ∧ q'.way = q.way := by
  induction names generalizing p p' with
  | nil => exact ⟨p', rfl, h', Except.ok.inj hw ▸ hway⟩
  | cons name names ih =>
      obtain ⟨mid, hmid, hw⟩ := walk_cons.mp hw
      obtain ⟨mid', hmid', hin', hway'⟩ := h.step_mono hr h' hway hmid
      obtain ⟨q', hq', hrest⟩ := ih (h.step (step_eq_ok_iff.mp hmid).2) hin' hway' hw
      exact ⟨q', walk_cons.mpr ⟨mid', hmid', hq'⟩, hrest⟩

/-! ## A changed tree -/

/-- A node put at a place stands at the end of the place's way. -/
theorem In.at?_root (h : p.In r) (m : Node) (w : List String) :
    (root ⟨m, p.above⟩).at? (p.way ++ w) = m.at? w := by
  induction h generalizing m w with
  | top => rfl
  | @inside p name n h he ih =>
      have hput := ih (p.node.put name m) (name :: w)
      rw [Node.at?, Node.child?_put (Node.isDirectory_of_child? he), if_pos rfl, Option.bind_some] at hput
      rw [way_inside, List.append_assoc, List.singleton_append, ← hput]
      rfl

theorem In.at?_rootWith (h : p.In r) (hd : p.node.isDirectory = true) (name : String) (m : Node)
    (w : List String) : (p.rootWith name m).at? (p.way ++ name :: w) = m.at? w := by
  rw [rootWith, h.at?_root, Node.at?, Node.child?_put hd, if_pos rfl, Option.bind_some]

/-- The other entries of the directory stay. -/
theorem In.kindAt?_rootWith_beside (h : p.In r) (hd : p.node.isDirectory = true) (m : Node)
    {w : List String} (hw : ¬[name] <+: w) :
    (p.rootWith name m).kindAt? (p.way ++ w) = r.kindAt? (p.way ++ w) := by
  rw [rootWith, Node.kindAt?, Node.kindAt?, h.at?_root, Node.at?_append, h.at?_way, Option.bind_some]
  cases w with
  | nil => exact congrArg some (Node.kind_put name)
  | cons first w =>
      have hne : first ≠ name := by
        rintro rfl
        exact hw ⟨w, rfl⟩
      rw [Node.at?, Node.child?_put hd, if_neg hne, Node.at?]

/-- Nothing changes but the entry that is put and what is beneath it. -/
theorem In.kindAt?_rootWith (h : p.In r) (hd : p.node.isDirectory = true) (m : Node)
    {v : List String} (hv : ¬p.way ++ [name] <+: v) : (p.rootWith name m).kindAt? v = r.kindAt? v := by
  induction h generalizing name m with
  | top => exact In.kindAt?_rootWith_beside .top hd m hv
  | @inside q last n h he ih =>
      by_cases hbelow : way ⟨n, (last, q.node) :: q.above⟩ <+: v
      · obtain ⟨w, rfl⟩ := hbelow
        exact (h.inside he).kindAt?_rootWith_beside hd m fun hw =>
          hv (List.prefix_append_right_inj _ |>.mpr hw)
      · -- The change is also one of the entry `last` above.
        rw [way_inside] at hbelow
        exact ih (Node.isDirectory_of_child? he) (n.put name m) hbelow

/-- Beneath an entry that is no directory there is nothing to lose. -/
theorem In.written_rootWith (h : p.In r) (hd : p.node.isDirectory = true)
    (hentry : ∀ n, p.node.child? name = some n → n.isDirectory = false) (text : String) :
    Node.Written (p.way ++ [name]) text r (p.rootWith name (.file text)) := by
  have hfile : (p.rootWith name (.file text)).at? (p.way ++ [name]) = some (.file text) :=
    h.at?_rootWith hd name _ []
  have hreplaced : ∀ n, r.at? (p.way ++ [name]) = some n → n.isDirectory = false := fun n hn =>
    hentry n (by rwa [Node.at?_append_single h.at?_way] at hn)
  refine ⟨hfile, hreplaced, fun v hv => ?_⟩
  by_cases hbelow : p.way ++ [name] <+: v
  · obtain ⟨_ | ⟨first, w⟩, rfl⟩ := hbelow
    · exact absurd (List.append_nil _) hv
    · have hnow : ∀ n, (p.rootWith name (.file text)).at? (p.way ++ [name]) = some n →
          n.isDirectory = false := fun n hn => Option.some.inj (hfile.symm.trans hn) ▸ rfl
      rw [Node.kindAt?, Node.kindAt?, Node.at?_beneath hnow, Node.at?_beneath hreplaced]
  · exact h.kindAt?_rootWith hd _ hbelow

/-- A new directory takes nothing away. -/
theorem In.kept_of_new (h : p.In r) (hd : p.node.isDirectory = true) (hnew : p.node.child? name = none)
    (m : Node) {v : List String} {k : Node} (hk : r.kindAt? v = some k) :
    (p.rootWith name m).kindAt? v = some k := by
  rwa [h.kindAt?_rootWith hd m]
  rintro ⟨w, rfl⟩
  simp [Node.kindAt?, Node.at?_append, h.at?_way, Node.at?, hnew] at hk

/-- A new directory has nothing in it. -/
theorem In.added_of_new (h : p.In r) (hd : p.node.isDirectory = true) {v : List String} {k : Node}
    (hk : (p.rootWith name (.directory [])).kindAt? v = some k) :
    r.kindAt? v = some k ∨ k = .directory [] := by
  by_cases hbelow : p.way ++ [name] <+: v
  · obtain ⟨w, rfl⟩ := hbelow
    rw [Node.kindAt?, List.append_assoc, List.singleton_append, h.at?_rootWith hd] at hk
    cases w with
    | nil => exact .inr (Option.some.inj hk).symm
    | cons first w => cases hk
  · rw [h.kindAt?_rootWith hd _ hbelow] at hk
    exact .inl hk

end Place

end CestWriter
