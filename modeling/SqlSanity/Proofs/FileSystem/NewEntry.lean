import SqlSanity.Proofs.FileSystem.Creation
import SqlSanity.Proofs.FileSystem.Locking

/-!
# Proofs/FileSystem/NewEntry — what paths lead to and what is met once a file is created

A path is looked up down the tree from where it starts.  The one start that is in no tree is a
working directory that has been removed: nothing can be created in it, and a path gets anywhere from
it only over its parent.  So a path that leads somewhere has a `View.Way` down the tree, and leads
to the same once the file is there unless it asks for the name of the file.  By listing, everything
is met that was met before, and the file.

* `View.exists_way` — the way of a path that leads somewhere;
* `View.writeFile_join` — writing to a new name of a directory creates the file;
* `View.Way.locate_add` — what a path leads to once the file is there;
* `View.Tracks.leads_add`, `View.Tracks.leads_new` — what is met by listing once the file is there;
* `View.Tracks.of_leads_add` — nothing else is met then.
-/

namespace SqlSanity

namespace Trail

variable {root : Node} {t : Trail} {name : FileName} {dots rest : List Bytes} {es : Entries}

/-- The step to the directory above. -/
abbrev up : Bytes := [Path.dot, Path.dot]

/-- Single dots lead nowhere from a directory that can be passed through. -/
theorem walk_dots (hdir : here root t = .directory false es) (hdots : ∀ s ∈ dots, s = [Path.dot]) :
    walk root t (dots ++ rest) = walk root t rest := by
  induction dots with
  | nil => rfl
  | cons s dots ih =>
    obtain rfl := hdots s List.mem_cons_self
    rw [List.cons_append, walk, hdir]
    exact (if_pos (beq_self_eq_true _)).trans (ih fun s hs => hdots s (List.mem_cons_of_mem _ hs))

/-- Two dots lead to the directory above. -/
theorem walk_up (hdir : here root t = .directory false es) :
    walk root t (up :: rest) = walk root t.tail rest := by
  rw [walk, hdir]
  rfl

/-- No name leads anywhere from a directory without entries. -/
theorem walk_of_empty {s : Bytes} (hdir : here root t = .directory false []) (hdot : s ≠ [Path.dot])
    (hup : s ≠ up) (rest : List Bytes) : walk root t (s :: rest) = .absent t s ∨
      ∃ e, walk root t (s :: rest) = .failed e := by
  by_cases hlen : s.length ≤ 255
  · rw [walk_of_lacks ⟨[], hdir, rfl, hdot, hup, hlen⟩]
    split
    · exact .inl rfl
    · exact .inr ⟨_, rfl⟩
  · refine .inr ⟨.nameTooLong, ?_⟩
    rw [walk, hdir]
    simp only [beq_eq_false_iff_ne.2 hdot, beq_eq_false_iff_ne.2 hup, Nat.not_le.1 hlen,
      Bool.false_eq_true, if_false, if_true]

end Trail

/-- Steps that are not all single dots have a first one that is none. -/
theorem Path.exists_dots {steps : List Bytes} (h : ¬∀ s ∈ steps, s = [Path.dot]) :
    ∃ dots s rest, steps = dots ++ s :: rest ∧ (∀ d ∈ dots, d = [Path.dot]) ∧ s ≠ [Path.dot] := by
  induction steps with
  | nil => exact absurd (fun s hs => nomatch hs) h
  | cons s steps ih =>
    by_cases hs : s = [Path.dot]
    · obtain ⟨dots, s', rest, rfl, hdots, hs'⟩ := ih fun hall =>
        h (List.forall_mem_cons.2 ⟨hs, hall⟩)
      exact ⟨s :: dots, s', rest, rfl, List.forall_mem_cons.2 ⟨hs, hdots⟩, hs'⟩
    · exact ⟨[], s, steps, rfl, List.forall_mem_nil _, hs⟩

namespace View

variable {v : View} {x : NewFile} {p : Path} {t u : Trail} {n : FileName} {steps : List Bytes}
  {place names : List FileName} {name : Bytes} {node child : Node} {es : Entries}

/-- The view once the file is there. -/
def add (v : View) (x : NewFile) : View := { v with files := v.files.add x }

/-- The path leads to the working directory, which has been removed. -/
def IsRemoved (v : View) (p : Path) : Prop :=
  v.cwd.removed = true ∧ p.isAbsolute = false ∧ ∀ s ∈ p.steps, s = [Path.dot]

/-- Looking a path up, its last link too, asks the directory at a place for a name. -/
def LooksUp (v : View) (p : Path) (place : List FileName) (name : Bytes) : Prop :=
  ∃ t, v.startOf p = some t ∧ v.files.LooksUp place name FileSystem.maxLinks t p.steps

/-! ## The way of a path -/

/-- The way of a path: a trail down the tree, and the steps that the path takes from there.  From a
removed working directory they are the steps behind the first one up. -/
inductive Way (v : View) (p : Path) : Trail → List Bytes → Prop
  | direct {t : Trail} (place : p.isAbsolute = true ∨ v.cwd.removed = false)
      (start : v.startOf p = some t) : Way v p t p.steps
  | parent {n : FileName} {t : Trail} {dots rest : List Bytes} (relative : p.isAbsolute = false)
      (removed : v.cwd.removed = true)
      (start : v.startOf p = some ((n, .directory false []) :: t))
      (steps : p.steps = dots ++ Trail.up :: rest) (dots : ∀ s ∈ dots, s = [Path.dot]) :
      Way v p t rest

/-- A path walks as its way does. -/
theorem Way.walk (h : v.Way p t steps) : ∃ t₀ front, v.startOf p = some t₀ ∧
    p.steps = front ++ steps ∧
      ∀ more, Trail.walk v.files.root t₀ (front ++ more) = Trail.walk v.files.root t more := by
  cases h with
  | direct place start => exact ⟨t, [], start, rfl, fun _ => rfl⟩
  | @parent n _ dots _ relative removed start hsteps hdots =>
    refine ⟨_, dots ++ [Trail.up], start, by rw [hsteps, List.append_assoc]; rfl, fun more => ?_⟩
    rw [List.append_assoc, Trail.walk_dots rfl hdots]
    exact Trail.walk_up rfl

/-- A relative path starts at a removed working directory, which is empty. -/
theorem exists_start_of_removed (hp : p.isAbsolute = false) (hremoved : v.cwd.removed = true)
    (h : v.startOf p = some u) : ∃ n t, u = (n, .directory false []) :: t := by
  rw [startOf, hp, start, hremoved] at h
  simp only [Bool.false_eq_true, if_false, if_true] at h
  split at h
  · cases h
  · next n _ =>
    obtain ⟨t, -, rfl⟩ := Option.map_eq_some_iff.1 h
    exact ⟨n, t, rfl⟩

/-- A path that leads somewhere has a way, unless it leads to a removed working directory. -/
theorem exists_way (h : v.locate true p = .ok (.there u)) (hp : ¬v.IsRemoved p) :
    ∃ t steps, v.Way p t steps := by
  obtain ⟨-, -, -, t₀, hstart, hfollow⟩ := locate_eq_ok_iff.1 h
  by_cases hplace : p.isAbsolute = true ∨ v.cwd.removed = false
  · exact ⟨t₀, _, .direct hplace hstart⟩
  rw [not_or, Bool.not_eq_true, Bool.not_eq_false] at hplace
  obtain ⟨hrelative, hremoved⟩ := hplace
  obtain ⟨dots, s, rest, hsteps, hdots, hs⟩ :=
    Path.exists_dots fun hall => hp ⟨hremoved, hrelative, hall⟩
  obtain ⟨n, t, rfl⟩ := exists_start_of_removed hrelative hremoved hstart
  by_cases hup : s = Trail.up
  · exact ⟨t, rest, .parent hrelative hremoved hstart (hup ▸ hsteps) hdots⟩
  · -- The lookup would end at a name that is not there.
    rw [hsteps, FileSystem.follow, Trail.walk_dots rfl hdots] at hfollow
    have hempty :
        Trail.here v.files.root ((n, .directory false []) :: t) = .directory false [] := rfl
    rcases Trail.walk_of_empty hempty hs hup rest with hwalk | ⟨e, hwalk⟩
    · rw [hwalk] at hfollow
      cases hfollow
    · rw [hwalk] at hfollow
      cases hfollow

/-- A way goes down the tree. -/
theorem Way.stands (h : v.Way p t steps) : t.Stands v.files.root := by
  have hextend {place : List FileName} {u : Trail}
      (h : Trail.extend v.files.root [] place = some u) : u.Stands v.files.root :=
    Trail.keptBySteps_stands.extend .nil h
  cases h with
  | direct place start =>
    rw [startOf] at start
    split at start
    · cases start
      exact .nil
    · next hrelative =>
      rw [View.start, place.resolve_left hrelative] at start
      exact hextend start
  | parent relative removed start =>
    rw [startOf, relative, View.start, removed] at start
    simp only [Bool.false_eq_true, if_false, if_true] at start
    split at start
    · cases start
    · obtain ⟨t', ht', heq⟩ := Option.map_eq_some_iff.1 start
      cases heq
      exact hextend ht'

/-- **A path keeps its way once the file is there.** -/
theorem Way.add (h : v.Way p t steps) (hx : x.Fits v.files.root) :
    (v.add x).Way p (t.grow x) steps := by
  have hextend {place : List FileName} {u : Trail}
      (h : Trail.extend v.files.root [] place = some u) :
      Trail.extend (v.add x).files.root [] place = some (u.grow x) :=
    Trail.extend_grow v.files.ordered hx .nil h
  have hcwd : (v.add x).cwd = v.cwd := rfl
  cases h with
  | direct place start =>
    refine .direct place ?_
    rw [startOf] at start ⊢
    split at start
    · cases start
      exact if_pos ‹_›
    · next hrelative =>
      rw [if_neg hrelative, View.start, hcwd]
      rw [View.start] at start
      rw [place.resolve_left hrelative] at start ⊢
      exact hextend start
  | @parent n t _ _ relative removed start steps dots =>
    have hstart : (v.add x).startOf p = some ((n, .directory false []) :: t.grow x) := by
      rw [startOf, relative, View.start] at start ⊢
      rw [hcwd]
      rw [removed] at start ⊢
      simp only [Bool.false_eq_true, if_false, if_true] at start ⊢
      split at start
      · cases start
      · obtain ⟨t', ht', heq⟩ := Option.map_eq_some_iff.1 start
        cases heq
        rw [hextend ht']
        rfl
    exact .parent relative removed hstart steps dots

theorem Way.locate (h : v.Way p t steps) : v.locate true p =
    if p.bytes.contains 0 then .error .nulByte
    else if p.isTooLong then .error .nameTooLong
    else if p.bytes.isEmpty then .error .noEntry
    else v.files.follow true FileSystem.maxLinks p.endsInSlash t steps := by
  obtain ⟨t₀, front, hstart, hsteps, hwalk⟩ := h.walk
  rw [startOf] at hstart
  have hfollow : v.files.follow true FileSystem.maxLinks p.endsInSlash t₀ p.steps =
      v.files.follow true FileSystem.maxLinks p.endsInSlash t steps := by
    rw [FileSystem.follow, FileSystem.follow, hsteps, hwalk]
  rw [View.locate, lookUp, hstart]
  simp only [hfollow]

/-- What the way of a path asks for, the path does. -/
theorem Way.looksUp (h : v.Way p t steps)
    (hlooks : v.files.LooksUp place name FileSystem.maxLinks t steps) : v.LooksUp p place name := by
  obtain ⟨t₀, front, hstart, hsteps, hwalk⟩ := h.walk
  refine ⟨t₀, hstart, ?_⟩
  rw [hsteps]
  cases hlooks with
  | here hasks =>
    obtain ⟨before, after, u, rfl, hbefore, hplace⟩ := hasks
    exact .here ⟨front ++ before, after, u, (List.append_assoc _ _ _).symm,
      (hwalk before).trans hbefore, hplace⟩
  | link hlink hne hnext => exact .link ((hwalk _).trans hlink) hne hnext

/-- **A path that does not ask for the name leads to the same once the file is there.** -/
theorem Way.locate_add (h : v.Way p t steps) (hx : x.Fits v.files.root)
    (hno : ¬v.files.LooksUp x.place x.name.bytes FileSystem.maxLinks t steps) :
    (v.add x).locate true p = (v.locate true p).map (Found.grow x) := by
  rw [h.locate, (h.add hx).locate]
  split
  · rfl
  · split
    · rfl
    · split
      · rfl
      · exact FileSystem.follow_grow hno

/-- Below a path there is a removed working directory only at the path itself. -/
theorem IsRemoved.of_below (h : v.IsRemoved (p.below names)) : v.IsRemoved p := by
  cases names with
  | nil => exact h
  | cons n names =>
    obtain ⟨-, -, hdots⟩ := h
    have hmem : n.bytes ∈ (p.below (n :: names)).steps := by
      rw [Path.steps_below]
      exact List.mem_append_right _ List.mem_cons_self
    exact absurd (hdots _ hmem) n.ne_dot

/-- The way of a path goes on to the names below it. -/
theorem Way.join (h : v.Way p t steps) (hp : p.bytes ≠ []) :
    v.Way (p.join n.toPath) t (steps ++ [n.bytes]) := by
  have habsolute := Path.isAbsolute_join hp n
  have hstart : v.startOf (p.join n.toPath) = v.startOf p := by rw [startOf, startOf, habsolute]
  cases h with
  | direct place start =>
    rw [← Path.steps_join]
    exact .direct (habsolute.symm ▸ place) (hstart.trans start)
  | parent relative removed start steps dots =>
    refine .parent (habsolute.trans relative) removed (hstart.trans start) ?_ dots
    rw [Path.steps_join, steps, List.append_assoc, List.cons_append]

theorem Way.below : ∀ {names : List FileName} {p : Path} {steps : List Bytes}, v.Way p t steps →
    p.bytes ≠ [] → ∃ steps', v.Way (p.below names) t steps'
  | [], _, steps, h, _ => ⟨steps, h⟩
  | n :: _, p, _, h, hp => (h.join hp (n := n)).below (Path.bytes_join_ne_nil p n)

/-! ## Paths that lead down the tree -/

/-- The entry of a directory that can be passed through is at the end of its trail. -/
theorem locate_entry (h : v.locate true p = .ok (.there t))
    (hdir : t.here v.files.root = .directory false es) (hmem : (n, child) ∈ es)
    (hlink : child.isLink = false) (hlen : (p.join n.toPath).isTooLong = false) :
    v.locate true (p.join n.toPath) = .ok (.there ((n, child) :: t)) := by
  obtain ⟨links, hlocate⟩ := locate_join true h hlen
  have hfind : v.find p = .ok (.directory false es) := nodeOf_eq_ok_iff.2 ⟨t, h, hdir⟩
  have hentry : Entries.find es n.bytes = some (n, child) :=
    Entries.find_of_mem (ordered_of_find hfind).sorted hmem
  rw [hlocate, FileSystem.follow, Trail.walk_name hdir hentry]
  cases child with
  | file locked content => rfl
  | link target => cases hlink
  | directory locked es => rfl

theorem here_of_list (h : v.locate true p = .ok (.there t)) (hlist : v.list p = .ok es) :
    t.here v.files.root = .directory false es :=
  Except.ok.inj ((nodeOf_eq_ok_iff.2 ⟨t, h, rfl⟩).symm.trans (list_eq_ok_iff.1 hlist))

/-- A directory that names lead to from a path is at the end of the trail of the path and the
names. -/
theorem exists_locate_below : ∀ {names : List FileName} {p : Path} {t : Trail},
    v.locate true p = .ok (.there t) → v.Enters p names → v.list (p.below names) = .ok es →
      ∃ u, v.locate true (p.below names) = .ok (.there u) ∧ u.place = t.place ++ names
  | [], p, t, h, _, _ => ⟨t, h, (List.append_nil _).symm⟩
  | n :: names, p, t, h, henters, hlist => by
    obtain ⟨es', dir, hlist', hmem, hreal, hrest⟩ := enters_cons_iff.1 henters
    obtain ⟨_, hnext⟩ := hrest.exists_list hlist
    have hjoin := locate_entry h (here_of_list h hlist') hmem (Node.isLink_of_isDirectory hreal)
      (isTooLong_of_list hnext)
    obtain ⟨u, hu, hplace⟩ := exists_locate_below hjoin hrest hlist
    exact ⟨u, hu, by rw [hplace, Trail.place_cons, List.append_assoc]; rfl⟩

/-! ## Making the file -/

/-- A file is created under a new name. -/
theorem create_eq_ok (t : Trail) (n : FileName) (content : Bytes) :
    v.create t n.bytes (.file false content) (.file false content) =
      .ok (v.add ⟨t.place, n, content⟩) := by
  rw [create, FileName.ofBytes?, dif_pos n.isFileName_bytes]
  rfl

/-- **Writing to a new name of a directory that can be listed creates the file.** -/
theorem writeFile_join (h : v.locate true p = .ok (.there t)) (hlist : v.list p = .ok es)
    (hfresh : ∀ e ∈ es, e.1 ≠ n) (hlen : (p.join n.toPath).isTooLong = false) (content : Bytes) :
    v.writeFile (p.join n.toPath) content =
      v.create t n.bytes (.file false content) (.file false content) := by
  obtain ⟨links, hlocate⟩ := locate_join true h hlen
  have habsent : v.locate true (p.join n.toPath) = .ok (.absent t n.bytes) := by
    rw [hlocate, FileSystem.follow,
      Trail.walk_of_lacks (Trail.lacks_of_fresh (here_of_list h hlist) hfresh)]
    rfl
  obtain ⟨found, hfound, hlocks⟩ := exists_locate_unlocked habsent
  cases hlocks with
  | absent ht =>
    rw [writeFile, Path.endsInSlash_join, hfound]
    simp only [Bool.false_eq_true, if_false, create_eq_ok, ht.place]

/-! ## Paths that lead to the same -/

/-- What a path leads to is what it led to, with the file below it or not. -/
def FindsSame (v : View) (x : NewFile) (p : Path) : Prop :=
  ∃ way, (v.add x).find p = (v.find p).map (x.grow way)

theorem FindsSame.isDirectory (h : v.FindsSame x p) :
    (v.add x).isDirectory p = v.isDirectory p := by
  obtain ⟨way, hfind⟩ := h
  rw [View.isDirectory, View.isDirectory, hfind]
  rcases v.find p with e | node
  · rfl
  · exact NewFile.isDirectory_grow

theorem FindsSame.read (h : v.FindsSame x p) : (v.add x).read p = v.read p := by
  obtain ⟨way, hfind⟩ := h
  rw [View.read, View.read, hfind]
  rcases v.find p with e | ⟨locked, content⟩ | target | ⟨_ | _, es⟩
  · rfl
  · simp only [Except.map, NewFile.grow_file]
  · simp only [Except.map, NewFile.grow_link]
  · simp only [Except.map, NewFile.grow_directory]
  · simp only [Except.map, NewFile.grow_directory]

/-- What cannot be listed cannot be listed then, and for the same reason. -/
theorem FindsSame.list_error_iff (h : v.FindsSame x p) {e : FileError} :
    (v.add x).list p = .error e ↔ v.list p = .error e := by
  obtain ⟨way, hfind⟩ := h
  rw [View.list, View.list, hfind]
  rcases v.find p with e | ⟨locked, content⟩ | target | ⟨_ | _, es⟩
  · rfl
  · simp only [Except.map, NewFile.grow_file]
  · simp only [Except.map, NewFile.grow_link]
  · simp only [Except.map, NewFile.grow_directory]
    constructor
    · intro h
      cases h
    · intro h
      cases h
  · simp only [Except.map, NewFile.grow_directory]
    exact Iff.rfl

/-- **A path that does not ask for the name finds what it found.** -/
theorem Way.findsSame (h : v.Way p t steps) (hx : x.Fits v.files.root)
    (hno : ¬v.LooksUp p x.place x.name.bytes) : v.FindsSame x p := by
  have hlocate := h.locate_add hx fun hlooks => hno (h.looksUp hlooks)
  rw [FindsSame, find, find, hlocate]
  rcases v.locate true p with e | ⟨u⟩ | ⟨u, name⟩
  · exact ⟨none, rfl⟩
  · exact ⟨u.wayTo x.place, congrArg Except.ok Trail.here_grow⟩
  · exact ⟨none, rfl⟩

/-- A path leads to the end of a trail down the tree, and to the end of the trail as it is then once
the file is there. -/
structure Tracks (v : View) (x : NewFile) (p : Path) (t : Trail) : Prop where
  stands : t.Stands v.files.root
  before : v.locate true p = .ok (.there t)
  after : (v.add x).locate true p = .ok (.there (t.grow x))

/-- The way of a path leads down the tree to where the path leads. -/
theorem Way.stands_of_locate (h : v.Way p t steps) (hp : v.locate true p = .ok (.there u)) :
    v.files.follow true FileSystem.maxLinks p.endsInSlash t steps = .ok (.there u) ∧
      u.Stands v.files.root := by
  obtain ⟨hnul, hlen, hne, -⟩ := locate_eq_ok_iff.1 hp
  rw [h.locate, hnul, hlen, hne] at hp
  exact ⟨hp, FileSystem.keptBySteps_follow Trail.keptBySteps_stands h.stands hp⟩

/-- **A path that leads somewhere leads to the same once the file is there.** -/
theorem Way.tracks (h : v.Way p t steps) (hx : x.Fits v.files.root)
    (hp : v.locate true p = .ok (.there u)) : v.Tracks x p u := by
  obtain ⟨hfollow, hstands⟩ := h.stands_of_locate hp
  refine ⟨hstands, hp, ?_⟩
  rw [h.locate_add hx (FileSystem.not_looksUp_of_follow hx h.stands hfollow), hp]
  rfl

namespace Tracks

variable {node' : Node}

/-- An entry is there with the file, as it is then. -/
theorem mem_growEntries (h : v.Tracks x p t) (hx : x.Fits v.files.root)
    (hdir : t.here v.files.root = .directory false es) {e : FileName × Node} :
    e ∈ x.growEntries (t.wayTo x.place) es ↔ (∃ d ∈ es, x.growEntry (t.wayTo x.place) d = e) ∨
      t.place = x.place ∧ e = (x.name, x.toNode) := by
  have hplace : t.wayTo x.place = some [] ↔ t.place = x.place := by
    rw [Trail.wayTo_eq_some_iff, List.append_nil, eq_comm]
  rw [NewFile.mem_growEntries_iff fun hway => ?_, hplace]
  obtain ⟨es', hdir', hfresh⟩ := h.stands.exists_fresh v.files.ordered hx (hplace.1 hway)
  obtain ⟨-, rfl⟩ := Node.directory.inj (hdir.symm.trans hdir')
  exact hfresh

theorem here_grow (hdir : t.here v.files.root = .directory false es) :
    (t.grow x).here (v.add x).files.root =
      .directory false (x.growEntries (t.wayTo x.place) es) := by
  have hhere : (t.grow x).here (v.add x).files.root
      = x.grow (t.wayTo x.place) (t.here v.files.root) := Trail.here_grow
  rw [hhere, hdir, NewFile.grow_directory]

theorem findsSame (h : v.Tracks x p t) : v.FindsSame x p := by
  have hbefore : v.find p = .ok (t.here v.files.root) := nodeOf_eq_ok_iff.2 ⟨t, h.before, rfl⟩
  refine ⟨t.wayTo x.place, ?_⟩
  rw [hbefore]
  exact nodeOf_eq_ok_iff.2 ⟨_, h.after, Trail.here_grow⟩

/-- What listing a path gives once the file is there. -/
theorem list_add (h : v.Tracks x p t) (hlist : v.list p = .ok es) :
    (v.add x).list p = .ok (x.growEntries (t.wayTo x.place) es) := by
  have hdir := here_of_list h.before hlist
  exact list_eq_ok_iff.2 (nodeOf_eq_ok_iff.2 ⟨_, h.after, here_grow hdir⟩)

/-- **The entries of a directory that is tracked are tracked.** -/
theorem join (h : v.Tracks x p t) (hx : x.Fits v.files.root)
    (hdir : t.here v.files.root = .directory false es) (hmem : (n, child) ∈ es)
    (hlink : child.isLink = false) (hlen : (p.join n.toPath).isTooLong = false) :
    v.Tracks x (p.join n.toPath) ((n, child) :: t) where
  stands := h.stands.cons hdir hmem
  before := locate_entry h.before hdir hmem hlink hlen
  after := locate_entry h.after (here_grow hdir)
    ((h.mem_growEntries hx hdir).2 (.inl ⟨_, hmem, rfl⟩)) (NewFile.isLink_grow.trans hlink) hlen

/-- **What is met below a path that is tracked is tracked**, unless it is a link. -/
theorem below (h : v.Tracks x p t) (hx : x.Fits v.files.root) (hleads : v.Leads p names node)
    (hlink : node.isLink = false) (hlen : (p.below names).isTooLong = false) :
    ∃ u, v.Tracks x (p.below names) u := by
  induction hleads generalizing t with
  | @entry p es n node hlist hmem =>
    exact ⟨_, h.join hx (here_of_list h.before hlist) hmem hlink hlen⟩
  | @through p es n dir node names hlist hmem hreal hrest ih =>
    obtain ⟨es', hnext⟩ := hrest.exists_list
    exact ih (h.join hx (here_of_list h.before hlist) hmem (Node.isLink_of_isDirectory hreal)
      (isTooLong_of_list hnext)) hlink hlen

/-- **What was met is met once the file is there**, as it is then. -/
theorem leads_add (h : v.Tracks x p t) (hx : x.Fits v.files.root) (hleads : v.Leads p names node) :
    ∃ way, (v.add x).Leads p names (x.grow way node) := by
  induction hleads generalizing t with
  | @entry p es n node hlist hmem =>
    have hdir := here_of_list h.before hlist
    exact ⟨_, .entry (h.list_add hlist) ((h.mem_growEntries hx hdir).2 (.inl ⟨_, hmem, rfl⟩))⟩
  | @through p es n dir node names hlist hmem hreal hrest ih =>
    have hdir := here_of_list h.before hlist
    obtain ⟨es', hnext⟩ := hrest.exists_list
    obtain ⟨way, hleads⟩ := ih (h.join hx hdir hmem (Node.isLink_of_isDirectory hreal)
      (isTooLong_of_list hnext))
    exact ⟨way, .through (h.list_add hlist) ((h.mem_growEntries hx hdir).2 (.inl ⟨_, hmem, rfl⟩))
      (NewFile.isDirectory_grow.trans hreal) hleads⟩

/-- An entry listed once the file is there was listed before, or is the file. -/
theorem of_list_add (h : v.Tracks x p t) (hx : x.Fits v.files.root) {es' : Entries}
    (hlist : (v.add x).list p = .ok es') (hmem : (n, node') ∈ es') :
    (∃ es node, v.list p = .ok es ∧ (n, node) ∈ es ∧ ∃ way, node' = x.grow way node) ∨
      t.place = x.place ∧ n = x.name ∧ node' = x.toNode := by
  rcases hbefore : v.list p with e | es
  · exact nomatch (h.findsSame.list_error_iff.2 hbefore).symm.trans hlist
  · obtain rfl := Except.ok.inj ((h.list_add hbefore).symm.trans hlist)
    rcases (h.mem_growEntries hx (here_of_list h.before hbefore)).1 hmem with
      ⟨⟨m, node⟩, hold, heq⟩ | ⟨hplace, heq⟩
    · obtain ⟨rfl, rfl⟩ := Prod.mk.inj heq
      exact .inl ⟨es, node, rfl, hold, _, rfl⟩
    · obtain ⟨rfl, rfl⟩ := Prod.mk.inj heq
      exact .inr ⟨hplace, rfl, rfl⟩

/-- **What is met once the file is there was met before, or is the file**, below the names that
lead to its directory. -/
theorem of_leads_add (h : v.Tracks x p t) (hx : x.Fits v.files.root)
    (hleads : (v.add x).Leads p names node') :
    (∃ way node, v.Leads p names node ∧ node' = x.grow way node) ∨
      ∃ front, names = front ++ [x.name] ∧ t.place ++ front = x.place ∧ node' = x.toNode := by
  induction hleads generalizing t with
  | @entry p es' n node' hlist hmem =>
    rcases h.of_list_add hx hlist hmem with ⟨es, node, hlist', hmem', way, rfl⟩ | ⟨hplace, rfl, rfl⟩
    · exact .inl ⟨way, node, .entry hlist' hmem', rfl⟩
    · exact .inr ⟨[], rfl, (List.append_nil _).trans hplace, rfl⟩
  | @through p es' n dir' node' names hlist hmem hreal hrest ih =>
    rcases h.of_list_add hx hlist hmem with ⟨es, dir, hlist', hmem', way, rfl⟩ | ⟨-, -, rfl⟩
    · rw [NewFile.isDirectory_grow] at hreal
      obtain ⟨es'', hnext⟩ := hrest.exists_list
      have hjoin := h.join hx (here_of_list h.before hlist') hmem'
        (Node.isLink_of_isDirectory hreal) (isTooLong_of_list hnext)
      rcases ih hjoin with ⟨way', node, hleads, rfl⟩ | ⟨front, rfl, hplace, rfl⟩
      · exact .inl ⟨way', node, .through hlist' hmem' hreal hleads, rfl⟩
      · refine .inr ⟨n :: front, rfl, ?_, rfl⟩
        rw [Trail.place_cons, List.append_assoc] at hplace
        exact hplace
    · cases hreal

/-- **The file is met**, where names lead to its directory. -/
theorem leads_new (h : v.Tracks x p t) (hx : x.Fits v.files.root) (henters : v.Enters p names)
    (hlist : v.list (p.below names) = .ok es) (hplace : t.place ++ names = x.place) :
    (v.add x).Leads p (names ++ [x.name]) x.toNode := by
  induction names generalizing p t with
  | nil =>
    rw [List.append_nil] at hplace
    exact .entry (h.list_add hlist)
      ((h.mem_growEntries hx (here_of_list h.before hlist)).2 (.inr ⟨hplace, rfl⟩))
  | cons n names ih =>
    obtain ⟨es', dir, hlist', hmem, hreal, hrest⟩ := enters_cons_iff.1 henters
    obtain ⟨es'', hnext⟩ := hrest.exists_list hlist
    have hdir := here_of_list h.before hlist'
    have hjoin := h.join hx hdir hmem (Node.isLink_of_isDirectory hreal) (isTooLong_of_list hnext)
    have hleads := ih hjoin hrest hlist (by rw [Trail.place_cons, List.append_assoc]; exact hplace)
    exact .through (h.list_add hlist') ((h.mem_growEntries hx hdir).2 (.inl ⟨_, hmem, rfl⟩))
      (NewFile.isDirectory_grow.trans hreal) hleads

end Tracks

end View

end SqlSanity
