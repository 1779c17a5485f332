import SqlSanity.FileSystem.Change
import SqlSanity.Proofs.FileSystem.Listing

/-!
# Proofs/FileSystem/Locking — what changes when more is locked

Locking a set of places leaves the tree as it is but for the locks.  A lookup then takes the same
steps as before for as long as no directory on its way is locked, and is denied when one is.  So
whatever is asked of the file system has the answer it had, up to more locks in it, or is denied:
`Restricted` says so of a lookup, and of the listing and the reading that come of it.

* `View.change_lock` — the lock of one path is the lock of one place;
* `FileSystem.follow_lockAt` — a lookup in step with the same lookup where more is locked;
* `View.find_lockAt`, `View.list_lockAt`, `View.read_lockAt` — what comes of a path;
* `View.leads_lockAt`, `View.leads_of_lockAt` — what is met by listing;
* `View.exists_locate_unlocked` — a lookup that every lock lets pass, with every lock cleared.
-/

namespace SqlSanity

/-! ## Locking a set of places -/

namespace Node

mutual

/-- The tree with the nodes at a set of places locked as well; a link has no lock. -/
def lockAt (s : List FileName → Bool) : Node → Node
  | .file locked content => .file (locked || s []) content
  | .link target => .link target
  | .directory locked entries => .directory (locked || s []) (lockEntries s entries)

/-- The entries with what is at a set of places locked as well. -/
def lockEntries (s : List FileName → Bool) : List (FileName × Node) → List (FileName × Node)
  | [] => []
  | (name, node) :: entries =>
    (name, lockAt (fun place => s (name :: place)) node) :: lockEntries s entries

end

variable {s : List FileName → Bool} {node : Node}

theorem lockEntries_eq_map : ∀ es : Entries,
    lockEntries s es = es.map fun e => (e.1, e.2.lockAt fun place => s (e.1 :: place))
  | [] => by rw [lockEntries, List.map_nil]
  | (name, node) :: es => by rw [lockEntries, lockEntries_eq_map es, List.map_cons]

@[simp] theorem isDirectory_lockAt : (node.lockAt s).isDirectory = node.isDirectory := by
  cases node <;> rw [lockAt] <;> rfl

/-- Locking keeps the tree in order. -/
theorem ordered_lockAt (h : node.Ordered) : (node.lockAt s).Ordered := by
  induction h generalizing s with
  | file locked content =>
    rw [lockAt]
    exact .file _ content
  | link target =>
    rw [lockAt]
    exact .link target
  | directory sorted _ ih =>
    rw [lockAt, lockEntries_eq_map]
    refine .directory (List.pairwise_map.2 sorted) fun e he => ?_
    obtain ⟨d, hd, rfl⟩ := List.mem_map.1 he
    exact ih d hd

/-- The second node is the first with more of it locked. -/
def Locks (node node' : Node) : Prop := ∃ s, node' = node.lockAt s

end Node

/-- Locking hides no entry and adds none. -/
theorem Entries.find_lockEntries {s : List FileName → Bool} (es : Entries) (name : Bytes) :
    Entries.find (Node.lockEntries s es) name =
      (Entries.find es name).map fun e => (e.1, e.2.lockAt fun place => s (e.1 :: place)) := by
  rw [Node.lockEntries_eq_map, find, List.find?_map]
  rfl

/-- The file system with the nodes at a set of places locked as well. -/
def FileSystem.lockAt (fs : FileSystem) (s : List FileName → Bool) : FileSystem :=
  ⟨fs.root.lockAt s, Node.ordered_lockAt fs.ordered⟩

theorem FileSystem.root_lockAt {fs : FileSystem} {s : List FileName → Bool} :
    (fs.lockAt s).root = fs.root.lockAt s := rfl

/-- The view with the nodes at a set of places locked as well. -/
def View.lockAt (v : View) (s : List FileName → Bool) : View := { v with files := v.files.lockAt s }

/-! ## One lock at a time -/

namespace Node

mutual

theorem lockAt_nowhere : ∀ node : Node, node.lockAt (fun _ => false) = node
  | .file locked content => by rw [lockAt, Bool.or_false]
  | .link target => by rw [lockAt]
  | .directory locked entries => by rw [lockAt, Bool.or_false, lockEntries_nowhere entries]

theorem lockEntries_nowhere : ∀ es : List (FileName × Node), lockEntries (fun _ => false) es = es
  | [] => by rw [lockEntries]
  | (name, node) :: es => by rw [lockEntries, lockAt_nowhere node, lockEntries_nowhere es]

end

theorem lockEntries_here (es : Entries) : lockEntries (fun q => q == []) es = es := by
  have hnowhere : lockEntries (fun q => q == []) es = lockEntries (fun _ => false) es := by
    rw [lockEntries_eq_map, lockEntries_eq_map]
    rfl
  rw [hnowhere, lockEntries_nowhere]

/-- Setting the lock of one node is locking the set of its place alone. -/
theorem update_setLocked : ∀ (place : List FileName) (node : Node),
    update (setLocked true) place node = node.lockAt fun q => q == place
  | [], .file locked content => by rw [update, setLocked, lockAt, beq_self_eq_true, Bool.or_true]
  | [], .link target => rfl
  | [], .directory locked es => by
    rw [update, setLocked, lockAt, beq_self_eq_true, Bool.or_true, lockEntries_here]
  | n :: place, .file locked content => by
    rw [lockAt, List.nil_beq_eq, List.isEmpty_cons, Bool.or_false]
    rfl
  | n :: place, .link target => rfl
  | n :: place, .directory locked es => by
    rw [update, mapEntries, lockAt, lockEntries_eq_map, List.nil_beq_eq, List.isEmpty_cons,
      Bool.or_false]
    congr 1
    refine List.map_congr_left fun e _ => ?_
    have ih := update_setLocked place e.2
    by_cases h : e.1 = n
    · simp [h, ih]
    · have hne : (e.1 == n) = false := beq_eq_false_iff_ne.2 h
      simp [h, hne, lockAt_nowhere]

end Node

/-- **To lock what a path leads to is to lock one place.** -/
theorem View.change_lock {v w : View} {p : Path} (h : v.change (.lock p) = .ok w) :
    ∃ place, w = v.lockAt fun q => q == place := by
  rw [change, setLocked] at h
  split at h
  · cases h
  · cases h
  · next t _ =>
    obtain rfl := Except.ok.inj h
    refine ⟨t.place, ?_⟩
    have hroot := Node.update_setLocked t.place v.files.root
    simp only [lockAt, FileSystem.lockAt, FileSystem.setLocked, FileSystem.update, hroot]

/-! ## Every lock cleared -/

namespace Node

/-- The node at a place of the tree is locked. -/
def lockedAt (node : Node) (place : List FileName) : Bool :=
  match node.get? place with
  | some (.file locked _) => locked
  | some (.directory locked _) => locked
  | _ => false

/-- Setting the locks that were cleared gives the tree back. -/
theorem lockAt_unlocked {node : Node} (h : node.Ordered) :
    node.unlocked.lockAt node.lockedAt = node := by
  induction h with
  | file locked content => rw [unlocked, lockAt]; rfl
  | link target => rw [unlocked, lockAt]
  | @directory locked es sorted _ ih =>
    have hentry : ∀ e ∈ es, (e.1, e.2.unlocked.lockAt fun place =>
        lockedAt (.directory locked es) (e.1 :: place)) = e := by
      intro e he
      have hbelow :
          (fun place => lockedAt (.directory locked es) (e.1 :: place)) = e.2.lockedAt := by
        funext place
        rw [lockedAt, lockedAt, get?, Entries.find_of_mem sorted he]
        rfl
      rw [hbelow, ih e he]
    rw [unlocked, lockAt, lockEntries_eq_map, unlockedEntries_eq_map, List.map_map]
    exact congrArg (directory locked) ((List.map_congr_left hentry).trans (List.map_id' es))

end Node

/-- A view is the view with every lock cleared, with its own locks set. -/
theorem View.lockAt_unlocked (v : View) : v.unlocked.lockAt v.files.root.lockedAt = v := by
  obtain ⟨⟨root, ordered⟩, cwd⟩ := v
  have hroot : root.unlocked.lockAt root.lockedAt = root := Node.lockAt_unlocked ordered
  simp only [lockAt, unlocked, FileSystem.lockAt, hroot]

/-! ## Answers -/

/-- What an answer comes to once more is locked: an answer related to it, the same error, or a
denial. -/
inductive Restricted {α β : Type} (related : α → β → Prop) :
    Except FileError α → Except FileError β → Prop
  | denied (r : Except FileError α) : Restricted related r (.error .denied)
  | error (e : FileError) : Restricted related (.error e) (.error e)
  | ok {a : α} {b : β} (h : related a b) : Restricted related (.ok a) (.ok b)

namespace Restricted

variable {α β : Type} {related : α → β → Prop} {r : Except FileError α} {r' : Except FileError β}

/-- An answer that is left was there before. -/
theorem exists_of_ok {b : β} (h : Restricted related r (.ok b)) : ∃ a, r = .ok a ∧ related a b := by
  cases h with
  | ok h => exact ⟨_, rfl, h⟩

/-- An answer that was there is left or denied. -/
theorem of_ok {a : α} (h : Restricted related (.ok a) r') :
    r' = .error .denied ∨ ∃ b, r' = .ok b ∧ related a b := by
  cases h with
  | denied => exact .inl rfl
  | ok h => exact .inr ⟨_, rfl, h⟩

/-- An error stays an error. -/
theorem exists_error {e : FileError} (h : Restricted related (.error e) r') :
    ∃ e', r' = .error e' := by
  rcases h with _ | _ | _
  · exact ⟨.denied, rfl⟩
  · exact ⟨e, rfl⟩

/-- An error that is no denial was there before. -/
theorem eq_error {e : FileError} (h : Restricted related r (.error e)) (he : e ≠ .denied) :
    r = .error e := by
  cases h with
  | denied => exact absurd rfl he
  | error => rfl

/-- An answer that is no denial is the answer that there was. -/
theorem eq_of_ne {r r' : Except FileError α} (h : Restricted Eq r r')
    (hne : r' ≠ .error .denied) : r = r' := by
  cases h with
  | denied => exact absurd rfl hne
  | error => rfl
  | ok h => rw [h]

end Restricted

/-! ## Trails -/

namespace Trail

/-- The second trail passes the same names, with more locked. -/
inductive Locks : Trail → Trail → Prop
  | nil : Locks [] []
  | cons {e : FileName × Node} {t t' : Trail} (s : List FileName → Bool) (rest : Locks t t') :
      Locks (e :: t) ((e.1, e.2.lockAt s) :: t')

/-- A walk stops as it did, on a trail with more locked, or is denied. -/
inductive Stop.Locks : Stop → Stop → Prop
  | denied (stop : Stop) : Locks stop (.failed .denied)
  | failed (e : FileError) : Locks (.failed e) (.failed e)
  | absent {t t' : Trail} (h : t.Locks t') (name : Bytes) :
      Locks (.absent t name) (.absent t' name)
  | there {t t' : Trail} (h : t.Locks t') : Locks (.there t) (.there t')
  | link {t t' : Trail} (h : t.Locks t') (name : FileName) (target : Path) (rest : List Bytes) :
      Locks (.link t name target rest) (.link t' name target rest)

variable {root : Node} {s : List FileName → Bool} {t t' : Trail}

theorem Locks.here (h : t.Locks t') : (t.here root).Locks (t'.here (root.lockAt s)) := by
  cases h with
  | nil => exact ⟨s, rfl⟩
  | cons s rest => exact ⟨s, rfl⟩

theorem Locks.tail (h : t.Locks t') : Trail.Locks t.tail t'.tail := by
  cases h with
  | nil => exact .nil
  | cons s rest => exact rest

/-- The places of two such trails are the same. -/
theorem Locks.place (h : t.Locks t') : t'.place = t.place := by
  rw [Trail.place, Trail.place]
  induction h with
  | nil => rfl
  | cons s rest ih => rw [List.map_cons, List.map_cons, List.reverse_cons, ih, List.reverse_cons]

/-- **A walk is in step with the same walk where more is locked.** -/
theorem walk_lockAt {steps : List Bytes} (h : t.Locks t') :
    (walk root t steps).Locks (walk (root.lockAt s) t' steps) := by
  induction steps generalizing t t' with
  | nil => exact .there h
  | cons b steps ih =>
    obtain ⟨s', hhere⟩ : (t.here root).Locks (t'.here (root.lockAt s)) := h.here
    rw [walk, walk, hhere]
    cases t.here root with
    | file locked content => exact .failed _
    | link target => exact .failed _
    | directory locked es =>
      rw [Node.lockAt]
      cases locked with
      | true => exact .failed _
      | false =>
        -- The lock of the directory that the walk stands at is all that can stop it.
        cases s' [] with
        | true => exact .denied _
        | false =>
          simp only [Bool.or_self, Entries.find_lockEntries]
          split
          · exact ih h
          · split
            · exact ih h.tail
            · split
              · exact .failed _
              · cases Entries.find es b with
                | none =>
                  simp only [Option.map_none]
                  split
                  · exact .absent h b
                  · exact .failed _
                | some e =>
                  obtain ⟨name, node⟩ := e
                  simp only [Option.map_some]
                  cases node with
                  | file locked content => exact ih (h.cons _)
                  | link target => exact .link h name target steps
                  | directory locked es => exact ih (h.cons _)

/-- The trail down a place is there before and after, with more locked. -/
theorem extend_lockAt {place : List FileName} (h : t.Locks t') :
    Option.Rel Trail.Locks (extend root t place) (extend (root.lockAt s) t' place) := by
  induction place generalizing t t' with
  | nil => exact .some h
  | cons n place ih =>
    obtain ⟨s', hhere⟩ : (t.here root).Locks (t'.here (root.lockAt s)) := h.here
    rw [extend, extend, hhere]
    cases t.here root with
    | file locked content => exact .none
    | link target => exact .none
    | directory locked es =>
      simp only [Node.lockAt, Entries.find_lockEntries]
      cases Entries.find es n.bytes with
      | none => exact .none
      | some e => exact ih (h.cons _)

end Trail

/-! ## Lookups -/

/-- A lookup finds what it found, with more locked. -/
inductive Found.Locks : Found → Found → Prop
  | absent {t t' : Trail} (h : t.Locks t') (name : Bytes) :
      Locks (.absent t name) (.absent t' name)
  | there {t t' : Trail} (h : t.Locks t') : Locks (.there t) (.there t')

/-- **A lookup is in step with the same lookup where more is locked.** -/
theorem FileSystem.follow_lockAt {fs : FileSystem} {s : List FileName → Bool} {last only : Bool}
    {links : Nat} {t t' : Trail} {steps : List Bytes} (h : t.Locks t') :
    Restricted Found.Locks (fs.follow last links only t steps)
      ((fs.lockAt s).follow last links only t' steps) := by
  -- On the links that may still be followed: each one starts a walk of its own.
  induction links using Nat.strongRecOn generalizing only t t' steps with
  | _ links ih =>
    have hwalk : (Trail.walk fs.root t steps).Locks (Trail.walk (fs.root.lockAt s) t' steps) :=
      Trail.walk_lockAt h
    rw [follow, follow, root_lockAt]
    generalize Trail.walk fs.root t steps = stop, Trail.walk (fs.root.lockAt s) t' steps = stop'
      at hwalk
    cases hwalk with
    | denied => exact .denied _
    | failed e => exact .error e
    | absent ht name => exact .ok (.absent ht name)
    | @there t t' ht =>
      obtain ⟨s', hhere⟩ : (t.here fs.root).Locks (t'.here (fs.root.lockAt s)) := ht.here
      simp only [hhere, Node.isDirectory_lockAt]
      split
      · exact .error _
      · exact .ok (.there ht)
    | link ht name target rest =>
      -- A link has no lock, so both lookups keep it or follow it alike.
      simp only
      split
      · exact .ok (.there (ht.cons fun _ => false))
      · split
        · exact .error _
        · cases links with
          | zero => exact .error _
          | succ links =>
            refine ih links (Nat.lt_succ_self _) ?_
            split
            · exact .nil
            · exact ht

/-! ## Paths -/

namespace View

variable {v : View} {s : List FileName → Bool} {p : Path} {names : List FileName} {node : Node}

theorem start_lockAt (v : View) (s : List FileName → Bool) :
    Option.Rel Trail.Locks v.start (v.lockAt s).start := by
  have hextend (place : List FileName) : Option.Rel Trail.Locks
      (Trail.extend v.files.root [] place) (Trail.extend (v.files.root.lockAt s) [] place) :=
    Trail.extend_lockAt .nil
  have hfiles : (v.lockAt s).files.root = v.files.root.lockAt s := rfl
  have hcwd : (v.lockAt s).cwd = v.cwd := rfl
  rw [start, start, hfiles, hcwd]
  split
  · split
    · exact .none
    · next name _ =>
      have hplace := hextend v.cwd.place.dropLast
      generalize Trail.extend v.files.root [] v.cwd.place.dropLast = t,
        Trail.extend (v.files.root.lockAt s) [] v.cwd.place.dropLast = t' at hplace
      cases hplace with
      | none => exact .none
      | some ht => exact .some (ht.cons fun _ => false)
  · exact hextend v.cwd.place

theorem startOf_lockAt (v : View) (s : List FileName → Bool) (p : Path) :
    Option.Rel Trail.Locks (v.startOf p) ((v.lockAt s).startOf p) := by
  rw [startOf, startOf]
  split
  · exact .some .nil
  · exact start_lockAt v s

theorem locate_lockAt (v : View) (s : List FileName → Bool) (p : Path) (last : Bool) :
    Restricted Found.Locks (v.locate last p) ((v.lockAt s).locate last p) := by
  have hstart := startOf_lockAt v s p
  rw [startOf, startOf] at hstart
  rw [locate, locate, lookUp, lookUp]
  generalize (if p.isAbsolute then some [] else v.start) = t,
    (if p.isAbsolute then some [] else (v.lockAt s).start) = t' at hstart
  split
  · exact .error _
  · split
    · exact .error _
    · split
      · exact .error _
      · cases hstart with
        | none => exact .error _
        | some ht => exact FileSystem.follow_lockAt ht

/-- **A lookup that every lock lets pass finds the same with every lock cleared.** -/
theorem exists_locate_unlocked {last : Bool} {found : Found} (h : v.locate last p = .ok found) :
    ∃ found', v.unlocked.locate last p = .ok found' ∧ found'.Locks found := by
  have hlocate := locate_lockAt v.unlocked v.files.root.lockedAt p last
  rw [lockAt_unlocked, h] at hlocate
  exact hlocate.exists_of_ok

/-- **What a path leads to is what it led to, with more locked**, unless the way is denied. -/
theorem find_lockAt (v : View) (s : List FileName → Bool) (p : Path) :
    Restricted Node.Locks (v.find p) ((v.lockAt s).find p) := by
  have hlocate := locate_lockAt v s p true
  rw [find, find]
  generalize v.locate true p = r, (v.lockAt s).locate true p = r' at hlocate
  cases hlocate with
  | denied => exact .denied _
  | error e => exact .error e
  | ok h =>
    cases h with
    | absent ht name => exact .error _
    | there ht => exact .ok ht.here

/-- What listing a path gives is what it gave, with more locked. -/
theorem list_lockAt (v : View) (s : List FileName → Bool) (p : Path) :
    Restricted (fun es es' => ∃ s', es' = Node.lockEntries s' es) (v.list p)
      ((v.lockAt s).list p) := by
  have hfind := find_lockAt v s p
  rw [list, list]
  generalize v.find p = r, (v.lockAt s).find p = r' at hfind
  cases hfind with
  | denied => exact .denied _
  | error e => exact .error e
  | @ok node _ h =>
    obtain ⟨s', rfl⟩ := h
    simp only
    cases node with
    | file locked content => exact .error _
    | link target => exact .error _
    | directory locked es =>
      rw [Node.lockAt]
      cases locked with
      | true => exact .error _
      | false =>
        cases s' [] with
        | true => exact .denied _
        | false => exact .ok ⟨s', rfl⟩

/-- What could not be listed cannot be listed now. -/
theorem exists_list_error {e : FileError} (h : v.list p = .error e) :
    ∃ e', (v.lockAt s).list p = .error e' := by
  have hlist := list_lockAt v s p
  rw [h] at hlist
  exact hlist.exists_error

/-- What cannot be listed now, and not for want of permission, could not be listed. -/
theorem list_error_of_lockAt {e : FileError} (h : (v.lockAt s).list p = .error e)
    (he : e ≠ .denied) : v.list p = .error e := by
  have hlist := list_lockAt v s p
  rw [h] at hlist
  exact hlist.eq_error he

/-- What reading a path gives is what it gave. -/
theorem read_lockAt (v : View) (s : List FileName → Bool) (p : Path) :
    Restricted Eq (v.read p) ((v.lockAt s).read p) := by
  have hfind := find_lockAt v s p
  rw [read, read]
  generalize v.find p = r, (v.lockAt s).find p = r' at hfind
  cases hfind with
  | denied => exact .denied _
  | error e => exact .error e
  | @ok node _ h =>
    obtain ⟨s', rfl⟩ := h
    cases node with
    | file locked content =>
      rw [Node.lockAt]
      cases locked with
      | true => exact .error _
      | false =>
        cases s' [] with
        | true => exact .denied _
        | false => exact .ok rfl
    | link target => exact .error _
    | directory locked es =>
      rw [Node.lockAt]
      cases locked with
      | true => exact .error _
      | false =>
        cases s' [] with
        | true => exact .denied _
        | false => exact .error _

/-- A directory that is still there was there before. -/
theorem isDirectory_of_lockAt (h : (v.lockAt s).isDirectory p = true) : v.isDirectory p = true := by
  obtain ⟨node', hfind', hdir⟩ := isDirectory_iff.1 h
  have hfind := find_lockAt v s p
  rw [hfind'] at hfind
  obtain ⟨node, hnode, s', rfl⟩ := hfind.exists_of_ok
  exact isDirectory_iff.2 ⟨node, hnode, by rwa [Node.isDirectory_lockAt] at hdir⟩

/-- **A directory is still there unless the way to it is denied.** -/
theorem isDirectory_lockAt_iff (h : v.isDirectory p = true) :
    (v.lockAt s).isDirectory p = true ↔ (v.lockAt s).find p ≠ .error .denied := by
  obtain ⟨node, hnode, hdir⟩ := isDirectory_iff.1 h
  have hfind := find_lockAt v s p
  rw [hnode] at hfind
  constructor
  · intro h' hdenied
    obtain ⟨node', hnode', -⟩ := isDirectory_iff.1 h'
    rw [hdenied] at hnode'
    cases hnode'
  · intro hdenied
    obtain h' | ⟨node', hnode', s', rfl⟩ := hfind.of_ok
    · exact absurd h' hdenied
    · exact isDirectory_iff.2 ⟨_, hnode', by rwa [Node.isDirectory_lockAt]⟩

/-! ## What is met by listing -/

/-- The way down from a path is blocked: its directory, or one met below it, cannot be listed for
want of permission. -/
inductive Blocked (v : View) (p : Path) : Prop
  | start (list : v.list p = .error .denied)
  | below {names : List FileName} {node : Node} (leads : v.Leads p names node)
      (real : node.isDirectory = true) (list : v.list (p.below names) = .error .denied)

/-- The way down some names from a path is blocked: the directory of the path, or one that it leads
to by the first of the names, cannot be listed for want of permission. -/
structure DeniedAt (v : View) (p : Path) (names front more : List FileName) : Prop where
  split : names = front ++ more
  enters : v.Enters p front
  list : v.list (p.below front) = .error .denied

/-- What blocks the way down from an entry blocks the way down from its directory. -/
theorem DeniedAt.cons {es : Entries} {n : FileName} {dir : Node} {front more : List FileName}
    (hlist : v.list p = .ok es) (hmem : (n, dir) ∈ es) (hdir : dir.isDirectory = true)
    (h : v.DeniedAt (p.join n.toPath) names front more) :
    v.DeniedAt p (n :: names) (n :: front) more where
  split := by rw [h.split, List.cons_append]
  enters := enters_cons_iff.2 ⟨es, dir, hlist, hmem, hdir, h.enters⟩
  list := h.list

theorem DeniedAt.blocked {front more : List FileName} (h : v.DeniedAt p names front more) :
    v.Blocked p := by
  rcases h.enters with rfl | ⟨node, hleads, hreal⟩
  · exact .start h.list
  · exact .below hleads hreal h.list

/-- **What was met is met still, unless a directory on the way to it is denied.** -/
theorem leads_lockAt (h : v.Leads p names node) :
    (∃ front more, (v.lockAt s).DeniedAt p names front more) ∨
      ∃ s', (v.lockAt s).Leads p names (node.lockAt s') := by
  induction h with
  | @entry p es n node hlist hmem =>
    have hlist' := list_lockAt v s p
    rw [hlist] at hlist'
    obtain h' | ⟨_, h', s', rfl⟩ := hlist'.of_ok
    · exact .inl ⟨[], [n], rfl, .nil, h'⟩
    · refine .inr ⟨fun place => s' (n :: place), .entry h' ?_⟩
      rw [Node.lockEntries_eq_map]
      exact List.mem_map_of_mem hmem
  | @through p es n dir node names hlist hmem hdir _ ih =>
    have hlist' := list_lockAt v s p
    rw [hlist] at hlist'
    obtain h' | ⟨_, h', s', rfl⟩ := hlist'.of_ok
    · exact .inl ⟨[], n :: names, rfl, .nil, h'⟩
    · have hmem' : (n, dir.lockAt fun place => s' (n :: place)) ∈ Node.lockEntries s' es := by
        rw [Node.lockEntries_eq_map]
        exact List.mem_map_of_mem hmem
      have hdir' : (dir.lockAt fun place => s' (n :: place)).isDirectory = true := by
        rwa [Node.isDirectory_lockAt]
      rcases ih with ⟨front, more, hdenied⟩ | ⟨s'', hleads⟩
      · exact .inl ⟨n :: front, more, hdenied.cons h' hmem' hdir'⟩
      · exact .inr ⟨s'', .through h' hmem' hdir' hleads⟩

/-- **What is met still was met before.** -/
theorem leads_of_lockAt {node' : Node} (h : (v.lockAt s).Leads p names node') :
    ∃ node, v.Leads p names node ∧ node.Locks node' := by
  -- An entry of the listing with more locked is an entry of the listing, with more locked.
  have hentry {p : Path} {es' : Entries} {n : FileName} {node' : Node}
      (hlist' : (v.lockAt s).list p = .ok es') (hmem' : (n, node') ∈ es') :
      ∃ es node, v.list p = .ok es ∧ (n, node) ∈ es ∧ node.Locks node' := by
    have hlist := list_lockAt v s p
    rw [hlist'] at hlist
    obtain ⟨es, hes, s', rfl⟩ := hlist.exists_of_ok
    rw [Node.lockEntries_eq_map] at hmem'
    obtain ⟨⟨m, node⟩, hmem, heq⟩ := List.mem_map.1 hmem'
    cases heq
    exact ⟨es, node, hes, hmem, _, rfl⟩
  induction h with
  | entry hlist' hmem' =>
    obtain ⟨es, node, hlist, hmem, hlocks⟩ := hentry hlist' hmem'
    exact ⟨node, .entry hlist hmem, hlocks⟩
  | through hlist' hmem' hdir' _ ih =>
    obtain ⟨es, dir, hlist, hmem, s', rfl⟩ := hentry hlist' hmem'
    obtain ⟨node, hleads, hlocks⟩ := ih
    exact ⟨node, .through hlist hmem (by rwa [Node.isDirectory_lockAt] at hdir') hleads, hlocks⟩

end View

end SqlSanity
