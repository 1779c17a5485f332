import SqlSanity.Proofs.FileSystem.Dangling

/-!
# Proofs/FileSystem/Creation — what changes when a file is created

A new file is one more entry of one directory, and the directories above it change with it.  A
lookup takes the same steps as before for as long as it does not ask that directory for the name of
the file, so `NewFile.grow` carries what it passes over to what it passes then.  Asking for the name
came to nothing before, and what a lookup did find it found without asking.

* `Trail.Stands.unique` — a trail down the tree is known by its place;
* `Trail.walk_grow`, `FileSystem.follow_grow` — a lookup that does not ask for the name;
* `FileSystem.dangles_of_looksUp` — asking for the name comes to nothing before the file is there.
-/

namespace SqlSanity

/-- A regular file that is to be created, in the directory at a place. -/
structure NewFile where
  place : List FileName
  name : FileName
  content : Bytes

/-- The names that are left of the way down to a directory, when it lies there. -/
abbrev WayDown := Option (List FileName)

/-- What is left of the way after one step. -/
def WayDown.step : WayDown → FileName → WayDown
  | some (m :: place), n => if n = m then some place else none
  | some [], _ => none
  | none, _ => none

theorem WayDown.step_eq_some_iff {way : WayDown} {n : FileName} {place : List FileName} :
    way.step n = some place ↔ way = some (n :: place) := by
  rcases way with _ | _ | ⟨m, rest⟩
  · simp [step]
  · simp [step]
  · by_cases h : n = m
    · simp [step, h]
    · simp [step, h, Ne.symm h]

/-! ## The tree with the file -/

namespace NewFile

variable {x : NewFile} {way : WayDown} {node : Node} {es : Entries} {e : FileName × Node}
  {locked : Bool} {b : Bytes}

/-- The file as a node, not locked. -/
def toNode (x : NewFile) : Node := .file false x.content

/-- A node once the file is there, with the directory of the file so far below it. -/
def grow (x : NewFile) : WayDown → Node → Node
  | none => id
  | some place => Node.update (Node.mapEntries (Entries.insert x.name x.toNode)) place

/-- An entry once the file is there, with the directory of the file so far below its directory. -/
def growEntry (x : NewFile) (way : WayDown) (e : FileName × Node) : FileName × Node :=
  (e.1, x.grow (way.step e.1) e.2)

/-- The entries of a directory once the file is there. -/
def growEntries (x : NewFile) (way : WayDown) (es : Entries) : Entries :=
  if way = some [] then Entries.insert x.name x.toNode es else es.map (x.growEntry way)

theorem growEntry_none : x.growEntry none e = e := rfl

theorem growEntry_here : x.growEntry (some []) e = e := rfl

theorem grow_file {content : Bytes} : x.grow way (.file locked content) = .file locked content := by
  rcases way with _ | _ | ⟨n, place⟩ <;> rfl

theorem grow_link {target : Path} : x.grow way (.link target) = .link target := by
  rcases way with _ | _ | ⟨n, place⟩ <;> rfl

theorem grow_directory :
    x.grow way (.directory locked es) = .directory locked (x.growEntries way es) := by
  rcases way with _ | _ | ⟨n, place⟩
  · rw [growEntries, if_neg (by simp)]
    have hsame : es.map (x.growEntry none) = es := List.map_id'' (fun _ => growEntry_none) es
    rw [hsame]
    rfl
  · rfl
  · rw [growEntries, if_neg (by simp), grow, Node.update, Node.mapEntries]
    refine congrArg _ (List.map_congr_left fun e _ => ?_)
    by_cases h : e.1 = n
    · simp [growEntry, WayDown.step, h, grow]
    · simp [growEntry, WayDown.step, h, grow]

@[simp] theorem isDirectory_grow : (x.grow way node).isDirectory = node.isDirectory := by
  cases node with
  | file locked content => rw [grow_file]
  | link target => rw [grow_link]
  | directory locked es => rw [grow_directory]; rfl

@[simp] theorem isLink_grow : (x.grow way node).isLink = node.isLink := by
  cases node with
  | file locked content => rw [grow_file]
  | link target => rw [grow_link]
  | directory locked es => rw [grow_directory]; rfl

end NewFile

theorem Entries.find_insert {es : Entries} {n : FileName} {node : Node} {b : Bytes}
    (h : n.bytes ≠ b) : Entries.find (Entries.insert n node es) b = Entries.find es b := by
  induction es with
  | nil => simp [insert, find, h]
  | cons e es ih =>
    rw [insert]
    split
    · rw [find, find, List.find?_cons, List.find?_cons]
      rw [find, find] at ih
      rw [ih]
    · split
      · next heq => simp [find, h, heq]
      · simp [find, List.find?_cons, h]

/-- Setting an entry that is not there adds it. -/
theorem Entries.mem_insert_iff {es : Entries} {n : FileName} {node : Node} {e : FileName × Node}
    (h : ∀ d ∈ es, d.1 ≠ n) : e ∈ Entries.insert n node es ↔ e = (n, node) ∨ e ∈ es := by
  induction es with
  | nil => simp [insert]
  | cons d es ih =>
    have ih := ih fun d hd => h d (List.mem_cons_of_mem _ hd)
    have hne : d.1 ≠ n := h d List.mem_cons_self
    rw [insert]
    split
    · rw [List.mem_cons, ih, List.mem_cons]
      exact or_left_comm
    · exact List.mem_cons

namespace NewFile

variable {x : NewFile} {way : WayDown} {es : Entries} {e : FileName × Node} {b : Bytes}

/-- An entry is found as before, unless it is the file that is asked for. -/
theorem find_growEntries (h : ¬(way = some [] ∧ b = x.name.bytes)) :
    Entries.find (x.growEntries way es) b = (Entries.find es b).map (x.growEntry way) := by
  rw [growEntries]
  split
  · next hway =>
    subst hway
    have hne : x.name.bytes ≠ b := fun hb => h ⟨rfl, hb.symm⟩
    have hsame : x.growEntry (some []) = id := funext fun _ => growEntry_here
    rw [Entries.find_insert hne, hsame, Option.map_id, id]
  · rw [Entries.find, List.find?_map]
    rfl

/-- The entries that are there with the file. -/
theorem mem_growEntries_iff (h : way = some [] → ∀ d ∈ es, d.1 ≠ x.name) :
    e ∈ x.growEntries way es ↔
      (∃ d ∈ es, x.growEntry way d = e) ∨ way = some [] ∧ e = (x.name, x.toNode) := by
  rw [growEntries]
  split
  · next hway =>
    have hsame : x.growEntry (some []) = id := funext fun _ => growEntry_here
    rw [Entries.mem_insert_iff (h hway), and_iff_right hway, or_comm, hway, hsame]
    simp
  · next hway =>
    rw [List.mem_map, or_iff_left fun hnew => hway hnew.1]

end NewFile

/-! ## Trails -/

namespace Trail

variable {x : NewFile} {root : Node} {t u : Trail} {names rest : List FileName}

/-- What is left of the way to a directory from the end of a trail. -/
def wayTo (names : List FileName) : Trail → WayDown
  | [] => some names
  | e :: t => (wayTo names t).step e.1

/-- The trail once the file is there. -/
def grow (x : NewFile) : Trail → Trail
  | [] => []
  | e :: t => x.growEntry (wayTo x.place t) e :: grow x t

@[simp] theorem place_nil : place [] = [] := rfl

@[simp] theorem place_cons {e : FileName × Node} : place (e :: t) = t.place ++ [e.1] := by
  simp [place]

theorem wayTo_eq_some_iff : ∀ {t : Trail} {rest : List FileName},
    t.wayTo names = some rest ↔ names = t.place ++ rest
  | [], rest => by simp [wayTo]
  | e :: t, rest => by
    rw [wayTo, WayDown.step_eq_some_iff, wayTo_eq_some_iff (t := t), place_cons, List.append_assoc,
      List.singleton_append]

theorem here_grow :
    here (x.grow (some x.place) root) (t.grow x) = x.grow (t.wayTo x.place) (here root t) := by
  cases t <;> rfl

theorem tail_grow : (t.grow x).tail = Trail.grow x t.tail := by
  cases t <;> rfl

/-! ### Trails down the tree -/

/-- The trail goes down the tree, one entry after another. -/
inductive Stands (root : Node) : Trail → Prop
  | nil : Stands root []
  | cons {t : Trail} {locked : Bool} {es : Entries} {e : FileName × Node} (above : Stands root t)
      (dir : here root t = .directory locked es) (mem : e ∈ es) : Stands root (e :: t)

theorem keptBySteps_stands : KeptBySteps root (Stands root) where
  nil := .nil
  tail h := by
    cases h with
    | nil => exact .nil
    | cons above dir mem => exact above
  cons h hdir hmem := .cons h hdir hmem

theorem Stands.ordered_here (hroot : root.Ordered) (h : Stands root t) : (here root t).Ordered := by
  induction h with
  | nil => exact hroot
  | cons above dir mem ih =>
    rw [dir] at ih
    exact ih.of_mem mem

/-- **A trail down the tree is known by its place.** -/
theorem Stands.unique (hroot : root.Ordered) (ht : Stands root t) (hu : Stands root u)
    (h : t.place = u.place) : t = u := by
  induction ht generalizing u with
  | nil =>
    cases hu with
    | nil => rfl
    | cons above dir mem => simp at h
  | @cons t _ es e above dir mem ih =>
    cases hu with
    | nil => simp at h
    | @cons u _ es' e' above' dir' mem' =>
      rw [place_cons, place_cons] at h
      obtain ⟨hplace, hname⟩ := List.append_inj' h rfl
      obtain rfl := ih above' hplace
      obtain ⟨rfl, rfl⟩ := Node.directory.inj (dir.symm.trans dir')
      obtain ⟨n, node⟩ := e
      obtain ⟨n', node'⟩ := e'
      obtain rfl : n = n' := List.singleton_inj.1 hname
      have hsorted := (dir ▸ above.ordered_here hroot).sorted
      rw [Entries.eq_of_mem hsorted mem mem']

end Trail

/-- The directory of the file is there, can be listed, and has no entry of the name. -/
inductive NewFile.Fits (x : NewFile) (root : Node) : Prop
  | into {t : Trail} {es : Entries} (stands : t.Stands root) (place : t.place = x.place)
      (dir : t.here root = .directory false es) (fresh : ∀ e ∈ es, e.1 ≠ x.name)

namespace Trail

variable {x : NewFile} {root : Node} {t u : Trail} {b : Bytes} {steps : List Bytes}

/-- At the place of the directory, the directory is met. -/
theorem Stands.exists_fresh (hroot : root.Ordered) (h : t.Stands root) (hx : x.Fits root)
    (hplace : t.place = x.place) :
    ∃ es, t.here root = .directory false es ∧ ∀ e ∈ es, e.1 ≠ x.name := by
  obtain ⟨hu, hplace', hdir, hfresh⟩ := hx
  obtain rfl := h.unique hroot hu (hplace.trans hplace'.symm)
  exact ⟨_, hdir, hfresh⟩

/-- A name that no entry has is not there yet. -/
theorem lacks_of_fresh {es : Entries} {n : FileName} (hdir : here root t = .directory false es)
    (hfresh : ∀ e ∈ es, e.1 ≠ n) : Lacks root t n.bytes := by
  refine ⟨es, hdir, Option.eq_none_iff_forall_ne_some.2 fun e hfind => ?_, n.ne_dot, n.ne_dots,
    n.length_le⟩
  obtain ⟨hmem, hname⟩ := Entries.mem_of_find hfind
  exact hfresh e hmem (FileName.ext hname)

/-- The name of the file is not there yet. -/
theorem Stands.lacks (hroot : root.Ordered) (h : t.Stands root) (hx : x.Fits root)
    (hplace : t.place = x.place) : Lacks root t x.name.bytes := by
  obtain ⟨es, hdir, hfresh⟩ := h.exists_fresh hroot hx hplace
  exact lacks_of_fresh hdir hfresh

/-- The way down a place goes down the tree, and is there with the file. -/
theorem extend_grow (hroot : root.Ordered) (hx : x.Fits root) :
    ∀ {place : List FileName} {t u : Trail}, t.Stands root → extend root t place = some u →
      extend (x.grow (some x.place) root) (t.grow x) place = some (u.grow x)
  | [], _, _, _, h => Option.some.inj h ▸ rfl
  | n :: place, t, u, ht, h => by
    rw [extend] at h ⊢
    split at h
    · next locked es hdir =>
      obtain ⟨e, hfind, hrest⟩ := Option.bind_eq_some_iff.1 h
      have hask : ¬(t.wayTo x.place = some [] ∧ n.bytes = x.name.bytes) := by
        rintro ⟨hway, hname⟩
        obtain ⟨es', hdir', hnone, -⟩ :=
          ht.lacks hroot hx (by rw [wayTo_eq_some_iff.1 hway, List.append_nil])
        obtain ⟨-, rfl⟩ := Node.directory.inj (hdir.symm.trans hdir')
        rw [hname, hnone] at hfind
        cases hfind
      rw [here_grow, hdir, NewFile.grow_directory]
      simp only [NewFile.find_growEntries hask, hfind, Option.map_some, Option.bind_some]
      exact extend_grow hroot hx (ht.cons hdir (Entries.mem_of_find hfind).1) hrest
    · cases h

/-! ### Walks -/

/-- Some steps from a trail ask the directory at a place for a name: they come to the directory
before any link, and go on with the name. -/
def Asks (root : Node) (t : Trail) (steps : List Bytes) (place : List FileName) (name : Bytes) :
    Prop :=
  ∃ before after u,
    steps = before ++ name :: after ∧ walk root t before = .there u ∧ u.place = place

/-- Where a walk stops once the file is there. -/
def Stop.grow (x : NewFile) : Stop → Stop
  | .there t => .there (t.grow x)
  | .link t name target rest => .link (t.grow x) name target rest
  | .absent t name => .absent (t.grow x) name
  | .failed e => .failed e

theorem asks_of_walk {place : List FileName} {name : Bytes}
    (hgo : ∀ rest, walk root t (b :: rest) = walk root u rest) (h : Asks root u steps place name) :
    Asks root t (b :: steps) place name := by
  obtain ⟨before, after, u', rfl, hwalk, hplace⟩ := h
  exact ⟨b :: before, after, u', rfl, (hgo before).trans hwalk, hplace⟩

/-- **A walk that does not ask for the name takes the same steps once the file is there.** -/
theorem walk_grow : ∀ {steps : List Bytes} {t : Trail},
    ¬Asks root t steps x.place x.name.bytes →
      walk (x.grow (some x.place) root) (t.grow x) steps = (walk root t steps).grow x
  | [], _, _ => rfl
  | b :: steps, t, h => by
    -- A step of the walk is no question for the name, and what is left of the walk asks none.
    have ih : ∀ {u : Trail}, (∀ rest, walk root t (b :: rest) = walk root u rest) →
        walk (x.grow (some x.place) root) (u.grow x) steps = (walk root u steps).grow x :=
      fun hgo => walk_grow fun hasks => h (asks_of_walk hgo hasks)
    have hask : ¬(t.wayTo x.place = some [] ∧ b = x.name.bytes) := by
      rintro ⟨hway, rfl⟩
      have hplace : t.place = x.place := by rw [wayTo_eq_some_iff.1 hway, List.append_nil]
      exact h ⟨[], steps, t, rfl, rfl, hplace⟩
    rw [walk, walk, here_grow]
    rcases hdir : here root t with ⟨locked, content⟩ | target | ⟨_ | _, es⟩
    · rw [NewFile.grow_file]
      rfl
    · rw [NewFile.grow_link]
      rfl
    · rw [NewFile.grow_directory]
      simp only [NewFile.find_growEntries hask]
      split
      · next hdot => exact ih fun rest => by rw [walk, hdir]; exact if_pos hdot
      · next hdot =>
        split
        · next hdots =>
          rw [tail_grow]
          exact ih fun rest => by rw [walk, hdir]; simp only [hdot, hdots, if_true]; rfl
        · next hdots =>
          split
          · rfl
          · next hlen =>
            cases hfind : Entries.find es b with
            | none =>
              simp only [Option.map_none]
              split <;> rfl
            | some e =>
              obtain ⟨rfl⟩ : e.1.bytes = b := (Entries.mem_of_find hfind).2
              obtain ⟨name, node⟩ := e
              have hgo := fun rest => (walk_name hdir hfind : walk root t (name.bytes :: rest) = _)
              simp only [Option.map_some, NewFile.growEntry]
              cases node with
              | file locked content =>
                have hwalk := ih hgo
                rw [grow, NewFile.growEntry, NewFile.grow_file] at hwalk
                rw [NewFile.grow_file]
                exact hwalk
              | link target =>
                rw [NewFile.grow_link]
                rfl
              | directory locked entries =>
                have hwalk := ih hgo
                rw [grow, NewFile.growEntry, NewFile.grow_directory] at hwalk
                rw [NewFile.grow_directory]
                exact hwalk
    · rw [NewFile.grow_directory]
      rfl

end Trail

/-! ## Lookups -/

/-- What a lookup finds once the file is there. -/
def Found.grow (x : NewFile) : Found → Found
  | .there t => .there (t.grow x)
  | .absent t name => .absent (t.grow x) name

namespace FileSystem

variable {fs : FileSystem} {x : NewFile} {only : Bool} {links : Nat} {t u : Trail}
  {steps : List Bytes}

/-- The file system with the file. -/
def add (fs : FileSystem) (x : NewFile) : FileSystem :=
  fs.insert x.place x.name x.toNode (.file false x.content)

theorem root_add : (fs.add x).root = x.grow (some x.place) fs.root := rfl

/-- A lookup that follows every link, over at most so many links, asks the directory at a place for
a name: its walk up to the first link does, or the lookup goes on behind that link and asks then. -/
inductive LooksUp (fs : FileSystem) (place : List FileName) (name : Bytes) :
    Nat → Trail → List Bytes → Prop
  | here {links : Nat} {t : Trail} {steps : List Bytes}
      (asks : Trail.Asks fs.root t steps place name) : LooksUp fs place name links t steps
  | link {links : Nat} {t t' : Trail} {entry : FileName} {target : Path} {steps rest : List Bytes}
      (walk : t.walk fs.root steps = .link t' entry target rest)
      (target_ne : target.bytes.isEmpty = false)
      (next : LooksUp fs place name links (linkStart target t') (target.steps ++ rest)) :
      LooksUp fs place name (links + 1) t steps

theorem linkStart_grow {target : Path} :
    linkStart target (t.grow x) = (linkStart target t).grow x := by
  rw [linkStart, linkStart]
  split <;> rfl

theorem linkStart_stands {target : Path} (ht : t.Stands fs.root) :
    (linkStart target t).Stands fs.root := by
  rw [linkStart]
  split
  · exact .nil
  · exact ht

/-- **A lookup that does not ask for the name comes to the same end once the file is there.** -/
theorem follow_grow (h : ¬fs.LooksUp x.place x.name.bytes links t steps) :
    (fs.add x).follow true links only (t.grow x) steps =
      (fs.follow true links only t steps).map (Found.grow x) := by
  -- On the links that may still be followed: each one starts a walk of its own.
  induction links using Nat.strongRecOn generalizing only t steps with
  | _ links ih =>
    rw [follow, follow, root_add, Trail.walk_grow fun hasks => h (.here hasks)]
    cases hwalk : t.walk fs.root steps with
    | failed e => rfl
    | absent t' name => rfl
    | there t' =>
      simp only [Trail.Stop.grow, Trail.here_grow, NewFile.isDirectory_grow]
      split <;> rfl
    | link t' name target rest =>
      simp only [Trail.Stop.grow, Bool.not_true, Bool.and_false, Bool.false_and,
        Bool.false_eq_true, if_false]
      split
      · rfl
      · next hne =>
        cases links with
        | zero => rfl
        | succ links =>
          have hstart : (if target.isAbsolute then [] else t'.grow x)
              = (linkStart target t').grow x := linkStart_grow
          simp only [hstart]
          exact ih links (Nat.lt_succ_self _) fun hnext =>
            h (.link hwalk (Bool.eq_false_iff.2 hne) hnext)

/-- **Asking for the name comes to nothing before the file is there.** -/
theorem dangles_of_looksUp (hx : x.Fits fs.root) (ht : t.Stands fs.root)
    (h : fs.LooksUp x.place x.name.bytes links t steps) : fs.Dangles links t steps := by
  induction h with
  | here hasks =>
    obtain ⟨before, after, u, rfl, hwalk, hplace⟩ := hasks
    have hu := Trail.keptBySteps_stands.walk (s := before) ht
    rw [hwalk] at hu
    exact .missing hwalk (hu.lacks fs.ordered hx hplace)
  | @link _ t _ _ _ steps _ hwalk hne _ ih =>
    have ht' := Trail.keptBySteps_stands.walk (s := steps) ht
    rw [hwalk] at ht'
    exact .link hwalk hne (ih (linkStart_stands ht'))

/-- A lookup that finds something does not ask for the name. -/
theorem not_looksUp_of_follow (hx : x.Fits fs.root) (ht : t.Stands fs.root)
    (h : fs.follow true links only t steps = .ok (.there u)) :
    ¬fs.LooksUp x.place x.name.bytes links t steps := by
  intro hlooks
  have hmisses : Misses (fs.follow true links only t steps) :=
    misses_follow_iff.2 (dangles_of_looksUp hx ht hlooks)
  rw [h] at hmisses
  exact hmisses

end FileSystem

end SqlSanity
