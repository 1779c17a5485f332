import SqlSanity.FileSystem.Lookup
import SqlSanity.Path.Ancestors

/-!
# FileSystem/Change — writing, removing, renaming and locking

Changes are made by an owner whom no lock stops: they look paths up in the file system as it is with
every lock cleared.  A change of entries takes the last name of a path as an entry, not as what a
link there leads to.  A change that cannot be made leaves the file system alone and says why.

* `Node.ordered_unlocked` — clearing all locks keeps the order of the entries;
* `Node.ordered_get?` — a node of a tree in order is in order;
* `View.change` — one change.
-/

namespace SqlSanity

namespace Node

mutual

/-- The tree with every lock cleared. -/
def unlocked : Node → Node
  | .file _ content => .file false content
  | .link target => .link target
  | .directory _ entries => .directory false (unlockedEntries entries)

/-- The entries with every lock cleared. -/
def unlockedEntries : List (FileName × Node) → List (FileName × Node)
  | [] => []
  | (name, node) :: entries => (name, unlocked node) :: unlockedEntries entries

end

theorem unlockedEntries_eq_map : ∀ es : Entries,
    unlockedEntries es = es.map fun e => (e.1, unlocked e.2)
  | [] => rfl
  | (name, node) :: es => by rw [unlockedEntries, unlockedEntries_eq_map es]; rfl

/-- Clearing all locks keeps the tree in order. -/
theorem ordered_unlocked {node : Node} (h : node.Ordered) : node.unlocked.Ordered := by
  induction h with
  | file _ content => exact .file false content
  | link target => exact .link target
  | directory sorted _ ih =>
    rw [unlocked, unlockedEntries_eq_map]
    refine .directory (List.pairwise_map.2 sorted) fun e he => ?_
    obtain ⟨d, hd, rfl⟩ := List.mem_map.1 he
    exact ih d hd

/-- The node at a place of the tree, if there is one. -/
def get? : List FileName → Node → Option Node
  | [], node => some node
  | n :: place, .directory _ entries => (Entries.find entries n.bytes).bind fun e => get? place e.2
  | _ :: _, _ => none

/-- A node of a tree in order is in order. -/
theorem ordered_get? {found : Node} : ∀ {place : List FileName} {node : Node},
    node.Ordered → get? place node = some found → found.Ordered
  | [], _, h, hf => Option.some.inj hf ▸ h
  | n :: place, _, .directory _ each, hf => by
    obtain ⟨e, he, hf⟩ := Option.bind_eq_some_iff.1 hf
    exact ordered_get? (each e (List.mem_of_find?_eq_some he)) hf

/-- The file with other content; nothing else has content. -/
def setContent (content : Bytes) : Node → Node
  | file locked _ => file locked content
  | node => node

theorem Ordered.setContent {node : Node} (h : node.Ordered) (content : Bytes) :
    (node.setContent content).Ordered := by
  cases h with
  | file locked _ => exact .file locked content
  | link target => exact .link target
  | directory sorted each => exact .directory sorted each

/-- A directory with no entry. -/
def isEmptyDirectory : Node → Bool
  | directory _ [] => true
  | _ => false

end Node

/-- A change to a file system. -/
inductive Change
  | write (path : Path) (content : Bytes)
  | makeDirectory (path : Path)
  | link (path target : Path)
  | remove (path : Path)
  | rename (source target : Path)
  | lock (path : Path)
  | unlock (path : Path)

namespace View

/-- The view with every lock cleared. -/
def unlocked (v : View) : View :=
  { v with files := ⟨v.files.root.unlocked, Node.ordered_unlocked v.files.ordered⟩ }

/-- A new entry under the last name on a trail. -/
def create (v : View) (t : Trail) (name : Bytes) (node : Node) (h : node.Ordered) :
    Except FileError View :=
  match FileName.ofBytes? name with
  | none => .error .invalid
  | some n => .ok { v with files := v.files.insert t.place n node h }

/-- The entry that a path names, whatever slashes the path ends in. -/
def locateEntry (v : View) (p : Path) : Except FileError Found := v.unlocked.lookUp false false p

/-- Makes one directory, whose parent must be there. -/
def makeDirectory (v : View) (p : Path) : Except FileError View :=
  match v.locateEntry p with
  | .error e => .error e
  | .ok (.there _) => .error .alreadyThere
  | .ok (.absent t name) => v.create t name (.directory false []) (.emptyDirectory false)

/-- Makes one directory, unless the path leads to one already. -/
def ensureDirectory (v : View) (p : Path) : Except FileError View :=
  match v.makeDirectory p with
  | .ok w => .ok w
  | .error e => if v.unlocked.isDirectory p then .ok v else .error e

/-- Makes the first of some directories, and before it those of the others that it needs. -/
def makeDirectories (v : View) : List Path → Except FileError View
  | [] => .ok v
  | p :: above =>
    if p.bytes.isEmpty then .ok v
    else match v.ensureDirectory p with
      | .error .noEntry => (v.makeDirectories above).bind fun w => w.ensureDirectory p
      | result => result

/-- Writes a file whose directory is there; a file that is there keeps its lock. -/
def writeFile (v : View) (p : Path) (content : Bytes) : Except FileError View :=
  if p.endsInSlash then (v.locateEntry p).bind fun _ => .error .isDirectory
  else match v.unlocked.locate true p with
    | .error e => .error e
    | .ok (.absent t name) => v.create t name (.file false content) (.file false content)
    | .ok (.there t) =>
      if (t.here v.files.root).isDirectory then .error .isDirectory
      else .ok { v with
        files := v.files.update t.place (Node.setContent content) fun _ h => h.setContent content }

/-- Makes a link where nothing is. -/
def makeLink (v : View) (p target : Path) : Except FileError View :=
  if target.bytes.isEmpty then .error .noEntry
  else if target.isTooLong then .error .nameTooLong
  else match v.locateEntry p with
    | .error e => .error e
    | .ok (.there _) => .error .alreadyThere
    | .ok (.absent t name) =>
      if p.endsInSlash then .error .noEntry else v.create t name (.link target) (.link target)

/-- Removes the entry that a path names, with everything below it.  With a slash at its end the path
must lead to a directory and name it itself. -/
def remove (v : View) (p : Path) : Except FileError View :=
  match v.unlocked.locate false p, v.locateEntry p with
  | .error e, _ => .error e
  | .ok (.absent _ _), _ => .error .noEntry
  | .ok (.there _), .ok (.there (e :: t)) =>
    if !p.endsInName then .error .invalid
    else if p.endsInSlash && !e.2.isDirectory then .error .notDirectory
    else .ok { v with files := v.files.erase (Trail.place t) e.1 }
  | .ok (.there _), _ => .error .invalid

/-- Moves a node to a new name, unless the name is below it. -/
def move (v : View) (source : Trail) (place : List FileName) (name : FileName) :
    Except FileError View :=
  match source with
  | [] => .error .invalid
  | e :: above =>
    let old := Trail.place (e :: above)
    if old.isPrefixOf place then .error .invalid
    else match h : v.files.root.get? old with
      | none => .error .noEntry
      | some node =>
        .ok { v with
          files := (v.files.erase (Trail.place above) e.1).insert place name node
            (Node.ordered_get? v.files.ordered h) }

/-- Moves the node at the end of a trail to where a lookup ended.  It may take the place of another
one, a directory only of an empty directory and anything else only of what is no directory. -/
def moveTo (v : View) (source : Trail) : Found → Except FileError View
  | .absent t name =>
    match FileName.ofBytes? name with
    | none => .error .invalid
    | some n => v.move source t.place n
  | .there [] => .error .busy
  | .there (e :: t) =>
    let old := Trail.place source
    let new := Trail.place (e :: t)
    if old.isPrefixOf (Trail.place t) then .error .invalid
    else if old == new then .ok v
    else if new.isPrefixOf old then .error .notEmpty
    else if (source.here v.files.root).isDirectory then
      if !e.2.isDirectory then .error .notDirectory
      else if !e.2.isEmptyDirectory then .error .notEmpty
      else v.move source (Trail.place t) e.1
    else if e.2.isDirectory then .error .isDirectory
    else v.move source (Trail.place t) e.1

/-- Renames an entry.  Only a directory may be given a path that ends in a slash. -/
def rename (v : View) (source target : Path) : Except FileError View :=
  match v.locateEntry source, v.locateEntry target with
  | .error e, _ => .error e
  | _, .error e => .error e
  | .ok s, .ok t =>
    if !(source.endsInName && target.endsInName) then .error .busy
    else match s with
      | .absent _ _ => .error .noEntry
      | .there s =>
        if (source.endsInSlash || target.endsInSlash) && !(s.here v.files.root).isDirectory then
          .error .notDirectory
        else v.moveTo s t

/-- Sets or clears the lock of the file or directory that a path leads to. -/
def setLocked (v : View) (p : Path) (locked : Bool) : Except FileError View :=
  match v.unlocked.locate true p with
  | .error e => .error e
  | .ok (.absent _ _) => .error .noEntry
  | .ok (.there t) => .ok { v with files := v.files.setLocked t.place locked }

/-- Makes a change.  What it puts in place finds its parent directories made. -/
def change (v : View) : Change → Except FileError View
  | .write p content => (v.makeDirectories p.properAncestors).bind fun w => w.writeFile p content
  | .makeDirectory p => v.makeDirectories p.ancestors
  | .link p target => (v.makeDirectories p.properAncestors).bind fun w => w.makeLink p target
  | .remove p => v.remove p
  | .rename source target => v.rename source target
  | .lock p => v.setLocked p true
  | .unlock p => v.setLocked p false

end View

end SqlSanity
