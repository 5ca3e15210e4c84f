import CestWriter.Files.Disk
import CestWriter.Proofs.Files.Path
import CestWriter.Proofs.Files.Tree

/-! # What stands at a path

A path leads to where it led before when directories are made and files are written. -/

namespace CestWriter.Disk

open CestWriter.Path (IsEntryName)

/-- Where a path leads, something of kind `k` stands. -/
def Shows (d : Disk) (path : String) (k : Node) : Prop :=
  ∃ p, d.find path = .ok p ∧ p.node.kind = k

/-- Where a path leads, a device stands. -/
def Device (d : Disk) (path : String) : Prop :=
  ∃ k : Node, k.IsDevice ∧ d.Shows path k

/-- A path leads to a file with this text, or to a device, which keeps nothing of a text. -/
def Took (d : Disk) (path text : String) : Prop :=
  d.Shows path (.file text) ∨ d.Device path

/-- All that is on the first disk is on the second as well, and what is new there are directories. -/
structure Keeps (d d' : Disk) : Prop where
  working : d'.working = d.working
  kept : ∀ way k, d.root.kindAt? way = some k → d'.root.kindAt? way = some k
  added : ∀ way k, d'.root.kindAt? way = some k → d.root.kindAt? way = some k ∨ k = .directory []

/-- The way to the directory that a path starts from. -/
def lead (d : Disk) (path : String) : List String :=
  if Path.isAbsolute path then [] else d.working

variable {d d' : Disk} {path dir name text : String} {p q : Place} {k : Node}

/-! ## Finding -/

theorem start_walk_eq_ok_iff {names : List String} :
    (∃ s, d.start path = .ok s ∧ s.walk names = .ok p) ↔
      (Place.top d.root).walk (d.lead path ++ names) = .ok p := by
  rw [lead, Place.walk_append, start]
  split_ifs
  · exact ⟨fun ⟨s, hs, hw⟩ => ⟨s, hs, hw⟩, fun ⟨s, hs, hw⟩ => ⟨s, hs, hw⟩⟩
  · rfl

theorem find_eq_ok_iff : d.find path = .ok p ↔ Path.check path = .ok () ∧
    (Place.top d.root).walk (d.lead path ++ Path.names path) = .ok p ∧
      (Path.endsInSlash path = true → p.node.isDirectory = true) := by
  rw [find, bind_eq_ok, ← start_walk_eq_ok_iff]
  constructor
  · rintro ⟨_, hcheck, h⟩
    obtain ⟨s, hs, h⟩ := bind_eq_ok.mp h
    obtain ⟨q, hq, h⟩ := bind_eq_ok.mp h
    split_ifs at h with hslash
    obtain rfl := Except.ok.inj h
    exact ⟨hcheck, ⟨s, hs, hq⟩, fun he => by_contra fun hd => hslash ⟨he, hd⟩⟩
  · rintro ⟨hcheck, ⟨s, hs, hq⟩, hslash⟩
    refine ⟨(), hcheck, bind_eq_ok.mpr ⟨s, hs, bind_eq_ok.mpr ⟨p, hq, ?_⟩⟩⟩
    rw [if_neg fun ⟨he, hd⟩ => hd (hslash he)]
    rfl

theorem in_of_find (h : d.find path = .ok p) : p.In d.root :=
  Place.In.top.walk (find_eq_ok_iff.mp h).2.1

/-- A file of a directory is one step away from where the directory's path leads. -/
theorem find_join (h : IsEntryName name) : d.find (Path.join dir name) = .ok q ↔
    Path.check (Path.join dir name) = .ok () ∧
      ∃ p, (Place.top d.root).walk (d.lead dir ++ Path.names dir) = .ok p ∧ p.step name = .ok q := by
  rw [find_eq_ok_iff, Path.endsInSlash_join h, Path.names_join h, lead, Path.isAbsolute_join h,
    ← List.append_assoc, Place.walk_append]
  simp [lead, Place.walk_singleton]

/-- What stands at the path of a file of a directory is the entry at the end of its way. -/
theorem shows_join_iff (h : IsEntryName name)
    (hp : (Place.top d.root).walk (d.lead dir ++ Path.names dir) = .ok p) :
    d.Shows (Path.join dir name) k ↔ Path.check (Path.join dir name) = .ok () ∧
      name.utf8ByteSize ≤ Place.longestName ∧ d.root.kindAt? (p.way ++ [name]) = some k := by
  have hin : p.In d.root := Place.In.top.walk hp
  rw [Node.kindAt?, Node.at?_append_single hin.at?_way]
  constructor
  · rintro ⟨q, hq, rfl⟩
    obtain ⟨hcheck, p', hp', hstep⟩ := (find_join h).mp hq
    obtain rfl := Except.ok.inj (hp.symm.trans hp')
    cases (Place.step_eq_ok_iff.mp hstep).2 with
    | stay hdot => exact absurd hdot h.ne_dot
    | up hdots => exact absurd hdots h.ne_dots
    | down _ _ hsize he => exact ⟨hcheck, hsize, by rw [he]; rfl⟩
  · rintro ⟨hcheck, hsize, hk⟩
    obtain ⟨n, he, rfl⟩ := Option.map_eq_some_iff.mp hk
    exact ⟨_, (find_join h).mpr ⟨hcheck, p, hp, Place.step_eq_ok_iff.mpr
      ⟨Node.isDirectory_of_child? he, .down h.ne_dot h.ne_dots hsize he⟩⟩, rfl⟩

theorem findLast_eq_ok_iff {last : Option (Place × String)} : d.findLast path = .ok last ↔
    Path.check path = .ok () ∧
      ∃ p, (Place.top d.root).walk (d.lead path ++ (Path.names path).dropLast) = .ok p ∧
        last = (Path.names path).getLast?.map fun name => (p, name) := by
  rw [findLast, bind_eq_ok]
  constructor
  · rintro ⟨_, hcheck, hlast⟩
    obtain ⟨s, hs, hlast⟩ := bind_eq_ok.mp hlast
    obtain ⟨p, hp, hlast⟩ := bind_eq_ok.mp hlast
    exact ⟨hcheck, p, start_walk_eq_ok_iff.mp ⟨s, hs, hp⟩, (Except.ok.inj hlast).symm⟩
  · rintro ⟨hcheck, p, hp, rfl⟩
    obtain ⟨s, hs, hp⟩ := start_walk_eq_ok_iff.mpr hp
    exact ⟨(), hcheck, bind_eq_ok.mpr ⟨s, hs, bind_eq_ok.mpr ⟨p, hp, rfl⟩⟩⟩

theorem findLast_join (h : IsEntryName name) {last : Option (Place × String)} :
    d.findLast (Path.join dir name) = .ok last ↔ Path.check (Path.join dir name) = .ok () ∧
      ∃ p, (Place.top d.root).walk (d.lead dir ++ Path.names dir) = .ok p ∧ last = some (p, name) := by
  rw [findLast_eq_ok_iff, Path.names_join h, List.dropLast_concat, List.getLast?_concat, lead, lead,
    Path.isAbsolute_join h]
  rfl

/-- A path that led somewhere leads to the end of the same way in a tree that has grown. -/
theorem find_mono (hw : d'.working = d.working) (hr : d.root.Grows d'.root) (h : d.find path = .ok p) :
    ∃ p', d'.find path = .ok p' ∧ p'.In d'.root ∧ p'.way = p.way := by
  obtain ⟨hcheck, hwalk, hslash⟩ := find_eq_ok_iff.mp h
  obtain ⟨p', hwalk', hin', hway⟩ := Place.In.top.walk_mono hr .top rfl hwalk
  refine ⟨p', find_eq_ok_iff.mpr ⟨hcheck, by rwa [lead, hw], fun he => ?_⟩, hin', hway⟩
  obtain ⟨n', hn', hd⟩ := hr _ _ (in_of_find h).at?_way
  rw [← hway, hin'.at?_way] at hn'
  exact Option.some.inj hn' ▸ hd (hslash he)

theorem Shows.unique {k' : Node} (h : d.Shows path k) (h' : d.Shows path k') : k = k' := by
  obtain ⟨p, hp, rfl⟩ := h
  obtain ⟨q, hq, rfl⟩ := h'
  rw [Except.ok.inj (hp.symm.trans hq)]

theorem isDirectory_iff : d.isDirectory path = true ↔ d.Shows path (.directory []) := by
  rw [isDirectory, Shows]
  cases d.find path with
  | error e => simp
  | ok p => simp [Node.kind_eq_directory_iff]

/-! ## Making directories -/

theorem Keeps.refl (d : Disk) : d.Keeps d :=
  ⟨rfl, fun _ _ h => h, fun _ _ h => .inl h⟩

theorem Keeps.trans {d'' : Disk} (h : d.Keeps d') (h' : d'.Keeps d'') : d.Keeps d'' := by
  refine ⟨h'.working.trans h.working, fun way k hk => h'.kept way k (h.kept way k hk),
    fun way k hk => ?_⟩
  rcases h'.added way k hk with hk | hk
  · exact h.added way k hk
  · exact .inr hk

theorem Keeps.shows (h : d.Keeps d') (hs : d.Shows path k) : d'.Shows path k := by
  obtain ⟨p, hp, rfl⟩ := hs
  obtain ⟨p', hp', hin', hway⟩ := find_mono h.working (Node.grows_of_kept h.kept) hp
  have hk := h.kept p.way p.node.kind (by rw [Node.kindAt?, (in_of_find hp).at?_way]; rfl)
  rw [← hway, Node.kindAt?, hin'.at?_way] at hk
  exact ⟨p', hp', Option.some.inj hk⟩

theorem Keeps.took (h : d.Keeps d') (ht : d.Took path text) : d'.Took path text := by
  rcases ht with hfile | ⟨k, hk, hdevice⟩
  · exact .inl (h.shows hfile)
  · exact .inr ⟨k, hk, h.shows hdevice⟩

theorem makeDir_keeps (h : d.makeDir path = .ok d') : d.Keeps d' := by
  obtain ⟨last, hlast, h⟩ := bind_eq_ok.mp h
  obtain ⟨-, p, hp, rfl⟩ := findLast_eq_ok_iff.mp hlast
  have hin : p.In d.root := Place.In.top.walk hp
  cases hname : (Path.names path).getLast? with
  | none => simp [hname] at h
  | some name =>
      rw [hname] at h
      dsimp only [Option.map_some] at h
      split at h
      · cases h
      · rename_i hstep
        obtain ⟨hd, hnew, -⟩ := Place.step_eq_noSuchFile hstep
        obtain rfl := Except.ok.inj h
        exact ⟨rfl, fun _ _ hk => hin.kept_of_new hd hnew _ hk, fun _ _ hk => hin.added_of_new hd hk⟩
      · cases h

/-- A directory that is there is not made again. -/
theorem makeDir_of_shows (h : d.Shows path (.directory [])) : d.makeDir path = .error .fileExists := by
  obtain ⟨p, hp, -⟩ := h
  obtain ⟨hcheck, hwalk, -⟩ := find_eq_ok_iff.mp hp
  rcases List.eq_nil_or_concat (Path.names path) with hnames | ⟨names, name, hnames⟩
  · have hlast : d.findLast path = .ok none :=
      findLast_eq_ok_iff.mpr ⟨hcheck, p, by simpa [hnames] using hwalk, by rw [hnames]; rfl⟩
    rw [makeDir, hlast]
    rfl
  · rw [List.concat_eq_append] at hnames
    rw [hnames, ← List.append_assoc] at hwalk
    obtain ⟨mid, hmid, hstep⟩ := Place.walk_append.mp hwalk
    rw [Place.walk_singleton] at hstep
    have hlast : d.findLast path = .ok (some (mid, name)) :=
      findLast_eq_ok_iff.mpr ⟨hcheck, mid, by simpa [hnames] using hmid, by simp [hnames]⟩
    simp only [makeDir, hlast, bind, Except.bind, hstep]
    rfl

/-! ## Writing files -/

/-- What a write of a file of a directory does. -/
inductive Wrote (d : Disk) (dir name text : String) (d' : Disk) : Prop
  | device (h : d.Device (Path.join dir name)) (he : d' = d)
  | file {p p' : Place} (hp : (Place.top d.root).walk (d.lead dir ++ Path.names dir) = .ok p)
    (hp' : (Place.top d'.root).walk (d'.lead dir ++ Path.names dir) = .ok p') (hway : p'.way = p.way)
    (hworking : d'.working = d.working)
    (hcheck : Path.check (Path.join dir name) = .ok ())
    (hsize : name.utf8ByteSize ≤ Place.longestName)
    (hroot : Node.Written (p.way ++ [name]) text d.root d'.root)

/-- A file takes the place of a file or of nothing; a device stays. -/
theorem writeAt_cases (hname : IsEntryName name) (h : d.writeAt p name text = .ok d') :
    p.node.isDirectory = true ∧ name.utf8ByteSize ≤ Place.longestName ∧
      ((∃ n, p.node.child? name = some n ∧ n.kind.IsDevice ∧ d' = d) ∨
        (∀ n, p.node.child? name = some n → n.isDirectory = false) ∧
          d' = { d with root := p.rootWith name (.file text) }) := by
  rw [writeAt] at h
  cases hstep : p.step name with
  | error e =>
      rw [hstep] at h
      cases e with
      | noSuchFile =>
          obtain ⟨hd, hnew, hsize⟩ := Place.step_eq_noSuchFile hstep
          exact ⟨hd, hsize, .inr ⟨by simp [hnew], (Except.ok.inj h).symm⟩⟩
      | _ => cases h
  | ok q =>
      obtain ⟨hd, hs⟩ := Place.step_eq_ok_iff.mp hstep
      cases hs with
      | stay hdot => exact absurd hdot hname.ne_dot
      | up hdots => exact absurd hdots hname.ne_dots
      | @down n _ _ hsize he =>
          rw [hstep] at h
          refine ⟨hd, hsize, ?_⟩
          cases n with
          | directory entries => cases h
          | file old => exact .inr ⟨by simp [he, Node.isDirectory], (Except.ok.inj h).symm⟩
          | sink => exact .inl ⟨_, he, .sink, (Except.ok.inj h).symm⟩
          | input => exact .inl ⟨_, he, .input, (Except.ok.inj h).symm⟩

theorem write_join_eq_ok_iff (hname : IsEntryName name) : d.write (Path.join dir name) text = .ok d' ↔
    Path.check (Path.join dir name) = .ok () ∧
      ∃ p, (Place.top d.root).walk (d.lead dir ++ Path.names dir) = .ok p ∧
        d.writeAt p name text = .ok d' := by
  rw [write, bind_eq_ok]
  simp only [findLast_join hname, Path.endsInSlash_join hname, Bool.false_eq_true, and_false, if_false]
  constructor
  · rintro ⟨_, ⟨hcheck, p, hp, rfl⟩, h⟩
    exact ⟨hcheck, p, hp, h⟩
  · rintro ⟨hcheck, p, hp, h⟩
    exact ⟨_, ⟨hcheck, p, hp, rfl⟩, h⟩

theorem wrote_of_write (hname : IsEntryName name) (h : d.write (Path.join dir name) text = .ok d') :
    d.Wrote dir name text d' := by
  obtain ⟨hcheck, p, hp, h⟩ := (write_join_eq_ok_iff hname).mp h
  have hin : p.In d.root := Place.In.top.walk hp
  obtain ⟨hd, hsize, ⟨n, he, hn, rfl⟩ | ⟨hentry, rfl⟩⟩ := writeAt_cases hname h
  · refine .device ⟨n.kind, hn, (shows_join_iff hname hp).mpr ⟨hcheck, hsize, ?_⟩⟩ rfl
    rw [Node.kindAt?, Node.at?_append_single hin.at?_way, he]
    rfl
  · have hroot := hin.written_rootWith hd hentry text
    obtain ⟨p', hp', -, hway⟩ := Place.In.top.walk_mono hroot.grows .top rfl hp
    exact .file hp hp' hway rfl hcheck hsize hroot

theorem Wrote.took (hname : IsEntryName name) (h : d.Wrote dir name text d') :
    d'.Took (Path.join dir name) text := by
  cases h with
  | device h he => exact .inr (he ▸ h)
  | file hp hp' hway _ hcheck hsize hroot =>
      refine .inl ((shows_join_iff hname hp').mpr ⟨hcheck, hsize, ?_⟩)
      rw [hway, Node.kindAt?, hroot.file]
      rfl

/-- A write leaves the other entries of the directory alone. -/
theorem Wrote.shows_other_iff {other : String} (hother : IsEntryName other) (hne : other ≠ name)
    (h : d.Wrote dir name text d') :
    d'.Shows (Path.join dir other) k ↔ d.Shows (Path.join dir other) k := by
  cases h with
  | device _ he => rw [he]
  | file hp hp' hway _ _ _ hroot =>
      rw [shows_join_iff hother hp, shows_join_iff hother hp', hway, hroot.same _ (by simpa using hne)]

theorem Wrote.took_other {other kept : String} (hother : IsEntryName other) (hne : other ≠ name)
    (h : d.Wrote dir name text d') (ht : d.Took (Path.join dir other) kept) :
    d'.Took (Path.join dir other) kept := by
  rcases ht with hfile | ⟨k, hk, hdevice⟩
  · exact .inl ((h.shows_other_iff hother hne).mpr hfile)
  · exact .inr ⟨k, hk, (h.shows_other_iff hother hne).mpr hdevice⟩

/-- Directories stay directories. -/
theorem Wrote.shows_directory (h : d.Wrote dir name text d') (hs : d.Shows path (.directory [])) :
    d'.Shows path (.directory []) := by
  cases h with
  | device _ he => exact he ▸ hs
  | file _ _ _ hworking _ _ hroot =>
      obtain ⟨q, hq, hk⟩ := hs
      obtain ⟨q', hq', hin', hway⟩ := find_mono hworking hroot.grows hq
      obtain ⟨n, hn, hd⟩ := hroot.grows _ _ (in_of_find hq).at?_way
      rw [← hway, hin'.at?_way] at hn
      obtain rfl := Option.some.inj hn
      exact ⟨q', hq', Node.kind_eq_directory_iff.mpr (hd (Node.kind_eq_directory_iff.mp hk))⟩

/-! ## Room for files -/

/-- A file of this name can be written into the directory: the name and its path are short enough,
and no directory has the name. -/
structure HasRoom (d : Disk) (dir name : String) : Prop where
  nameFits : name.utf8ByteSize ≤ Place.longestName
  pathFits : (Path.join dir name).utf8ByteSize < Path.limit
  free : ¬d.Shows (Path.join dir name) (.directory [])

theorem exists_write (hname : IsEntryName name) (hdir : d.Shows dir (.directory []))
    (hroom : d.HasRoom dir name) (text : String) : ∃ d', d.write (Path.join dir name) text = .ok d' := by
  obtain ⟨p, hp, hk⟩ := hdir
  obtain ⟨hcheck, hwalk, -⟩ := find_eq_ok_iff.mp hp
  have hjoin := Path.check_join hname hcheck hroom.pathFits
  have hd := Node.kind_eq_directory_iff.mp hk
  suffices hat : ∃ d', d.writeAt p name text = .ok d' by
    obtain ⟨d', hd'⟩ := hat
    exact ⟨d', (write_join_eq_ok_iff hname).mpr ⟨hjoin, p, hwalk, hd'⟩⟩
  rw [writeAt, Place.step_eq_child hd hname.ne_dot hname.ne_dots hroom.nameFits]
  cases he : p.node.child? name with
  | none => exact ⟨_, rfl⟩
  | some n =>
      cases n with
      | file | sink | input => exact ⟨_, rfl⟩
      | directory entries =>
          refine absurd ((shows_join_iff hname hwalk).mpr ⟨hjoin, hroom.nameFits, ?_⟩) hroom.free
          rw [Node.kindAt?, Node.at?_append_single (Place.In.top.walk hwalk).at?_way, he]
          rfl

theorem Wrote.hasRoom {other : String} (hname : IsEntryName name) (hother : IsEntryName other)
    (h : d.Wrote dir name text d') (hroom : d.HasRoom dir other) : d'.HasRoom dir other := by
  refine ⟨hroom.nameFits, hroom.pathFits, fun hs => ?_⟩
  by_cases hne : other = name
  · subst hne
    rcases h.took hname with hfile | ⟨k, hk, hdevice⟩
    · cases hs.unique hfile
    · cases hs.unique hdevice
      cases hk
  · exact hroom.free ((h.shows_other_iff hother hne).mp hs)

end CestWriter.Disk
