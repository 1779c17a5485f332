import SqlSanity.Path.Basic

/-!
# FileSystem/Node — a file system as a tree

A node is a regular file, a symbolic link or a directory.  A locked file cannot be read; a locked
directory can neither be listed nor passed through.  The entries of a directory stand in the byte
order of their names, each name once, and `FileSystem` keeps that invariant in its type.

* `Node.Ordered` — the invariant, at every depth;
* `Node.ordered_update` — changing a node in place keeps it;
* `Entries.pairwise_insert`, `Entries.pairwise_erase` — so do setting and erasing an entry.
-/

namespace SqlSanity

/-- A name that a directory can hold: not empty, not `.` or `..`, at most 255 bytes, and without a
slash or a NUL byte. -/
def isFileName (b : Bytes) : Bool :=
  !b.isEmpty && b != [Path.dot] && b != [Path.dot, Path.dot] && b.length ≤ 255
    && !b.contains Path.slash && !b.contains 0

/-- The name of an entry in a directory. -/
structure FileName where
  bytes : Bytes
  isFileName_bytes : isFileName bytes = true
  deriving DecidableEq

namespace FileName

/-- The name that some bytes are, if they are one. -/
def ofBytes? (b : Bytes) : Option FileName := if h : isFileName b = true then some ⟨b, h⟩ else none

/-- Names are ordered by their bytes. -/
instance : LT FileName := ⟨fun a b => a.bytes < b.bytes⟩

instance (a b : FileName) : Decidable (a < b) := inferInstanceAs (Decidable (a.bytes < b.bytes))

theorem ext {a b : FileName} (h : a.bytes = b.bytes) : a = b := by
  cases a; cases b; cases h; rfl

theorem lt_irrefl (a : FileName) : ¬a < a := List.lt_irrefl a.bytes

theorem lt_trans {a b c : FileName} (hab : a < b) (hbc : b < c) : a < c := List.lt_trans hab hbc

/-- Of two names that differ, one comes first. -/
theorem lt_of_not_lt {a b : FileName} (h : ¬a < b) (hne : a ≠ b) : b < a :=
  Classical.byContradiction fun hba =>
    hne (ext (List.le_antisymm (List.not_lt.1 hba) (List.not_lt.1 h)))

/-- A name as a path of its own. -/
def toPath (n : FileName) : Path := ⟨n.bytes⟩

end FileName

/-- What a path can lead to. -/
inductive Node
  | file (locked : Bool) (content : Bytes)
  | link (target : Path)
  | directory (locked : Bool) (entries : List (FileName × Node))

/-- The entries of a directory: names with what they lead to. -/
abbrev Entries := List (FileName × Node)

namespace Entries

/-- The names stand in order, each once. -/
def Sorted (es : Entries) : Prop := es.Pairwise fun a b => a.1 < b.1

/-- The entry with these bytes for a name. -/
def find (es : Entries) (name : Bytes) : Option (FileName × Node) :=
  List.find? (fun e => e.1.bytes == name) es

/-- The entries with `name` leading to `node`, whatever it led to before. -/
def insert (name : FileName) (node : Node) : Entries → Entries
  | [] => [(name, node)]
  | e :: es =>
    if e.1 < name then e :: insert name node es
    else if e.1 = name then (name, node) :: es
    else (name, node) :: e :: es

/-- The entries without `name`. -/
def erase (name : FileName) (es : Entries) : Entries := es.filter fun e => e.1 != name

theorem mem_insert {name : FileName} {node : Node} {e : FileName × Node} :
    ∀ {es : Entries}, e ∈ insert name node es → e = (name, node) ∨ e ∈ es
  | [], h => by simpa [insert] using h
  | d :: es, h => by
    have ih := fun h => @mem_insert name node e es h
    rw [insert] at h
    grind

/-- Setting an entry keeps the order. -/
theorem pairwise_insert {name : FileName} {node : Node} :
    ∀ {es : Entries}, Sorted es → Sorted (insert name node es)
  | [], _ => List.pairwise_singleton _ _
  | d :: es, h => by
    obtain ⟨hd, hes⟩ := List.pairwise_cons.1 h
    rw [insert]
    split
    · next hlt =>
      refine List.pairwise_cons.2 ⟨fun e he => ?_, pairwise_insert hes⟩
      rcases mem_insert he with rfl | he
      · exact hlt
      · exact hd e he
    · next hlt =>
      split
      · next heq => exact List.pairwise_cons.2 ⟨fun e he => heq ▸ hd e he, hes⟩
      · next hne =>
        have hlt' : name < d.1 := FileName.lt_of_not_lt hlt hne
        refine List.pairwise_cons.2 ⟨fun e he => ?_, h⟩
        rcases List.mem_cons.1 he with rfl | he
        · exact hlt'
        · exact FileName.lt_trans hlt' (hd e he)

/-- Erasing an entry keeps the order. -/
theorem pairwise_erase {name : FileName} {es : Entries} (h : Sorted es) : Sorted (erase name es) :=
  h.filter _

end Entries

namespace Node

/-- The entries of every directory in the tree stand in order. -/
inductive Ordered : Node → Prop
  | file (locked : Bool) (content : Bytes) : Ordered (.file locked content)
  | link (target : Path) : Ordered (.link target)
  | directory {locked : Bool} {entries : Entries} (sorted : Entries.Sorted entries)
      (each : ∀ e ∈ entries, Ordered e.2) : Ordered (.directory locked entries)

/-- A directory without entries is in order. -/
theorem Ordered.emptyDirectory (locked : Bool) : Ordered (.directory locked []) :=
  .directory .nil fun _ h => nomatch h

/-- A directory. -/
def isDirectory : Node → Bool
  | directory _ _ => true
  | _ => false

/-- The node with its lock set or cleared; a link has none. -/
def setLocked (locked : Bool) : Node → Node
  | file _ content => file locked content
  | link target => link target
  | directory _ entries => directory locked entries

/-- The directory with its entries changed by `f`; nothing else has entries. -/
def mapEntries (f : Entries → Entries) : Node → Node
  | directory locked entries => directory locked (f entries)
  | node => node

/-- The tree with the node at a place changed by `f`; nothing changes when no node is there. -/
def update (f : Node → Node) : List FileName → Node → Node
  | [], node => f node
  | n :: place, node =>
    node.mapEntries fun es => es.map fun e => if e.1 = n then (e.1, update f place e.2) else e

theorem Ordered.setLocked {node : Node} (h : node.Ordered) (locked : Bool) :
    (node.setLocked locked).Ordered := by
  cases h with
  | file _ content => exact .file locked content
  | link target => exact .link target
  | directory sorted each => exact .directory sorted each

/-- Changing entries in a way that keeps order keeps the tree in order. -/
theorem Ordered.mapEntries {node : Node} (h : node.Ordered) {f : Entries → Entries}
    (hf : ∀ es : Entries, es.Sorted → (∀ e ∈ es, Ordered e.2) →
      (f es).Sorted ∧ ∀ e ∈ f es, Ordered e.2) : (node.mapEntries f).Ordered := by
  cases h with
  | file locked content => exact .file locked content
  | link target => exact .link target
  | directory sorted each => exact .directory (hf _ sorted each).1 (hf _ sorted each).2

/-- **Changing a node in place keeps the tree in order.** -/
theorem ordered_update {f : Node → Node} (hf : ∀ node : Node, node.Ordered → (f node).Ordered) :
    ∀ (place : List FileName) {node : Node}, node.Ordered → (update f place node).Ordered
  | [], _, h => hf _ h
  | n :: place, _, h => by
    refine h.mapEntries fun es sorted each => ⟨?_, fun e he => ?_⟩
    · refine List.pairwise_map.2 (sorted.imp fun {a b} hab => ?_)
      split <;> split <;> exact hab
    · obtain ⟨d, hd, rfl⟩ := List.mem_map.1 he
      split
      · exact ordered_update hf place (each d hd)
      · exact each d hd

end Node

/-- A file system: its root, with the entries of every directory in order. -/
structure FileSystem where
  root : Node
  ordered : root.Ordered

namespace FileSystem

/-- The file system that holds nothing. -/
def empty : FileSystem := ⟨.directory false [], .emptyDirectory false⟩

/-- The file system with the node at a place changed. -/
def update (fs : FileSystem) (place : List FileName) (f : Node → Node)
    (hf : ∀ node : Node, node.Ordered → (f node).Ordered) : FileSystem :=
  ⟨fs.root.update f place, Node.ordered_update hf place fs.ordered⟩

/-- The file system with an entry of the directory at `place` set. -/
def insert (fs : FileSystem) (place : List FileName) (name : FileName) (node : Node)
    (h : node.Ordered) : FileSystem :=
  fs.update place (Node.mapEntries (Entries.insert name node)) fun _ hn =>
    hn.mapEntries fun _ sorted each => ⟨Entries.pairwise_insert sorted, fun e he => by
      rcases Entries.mem_insert he with rfl | he
      · exact h
      · exact each e he⟩

/-- The file system with an entry of the directory at `place` erased. -/
def erase (fs : FileSystem) (place : List FileName) (name : FileName) : FileSystem :=
  fs.update place (Node.mapEntries (Entries.erase name)) fun _ hn =>
    hn.mapEntries fun _ sorted each =>
      ⟨Entries.pairwise_erase sorted, fun e he => each e (List.mem_filter.1 he).1⟩

/-- The file system with the lock of the node at `place` set or cleared. -/
def setLocked (fs : FileSystem) (place : List FileName) (locked : Bool) : FileSystem :=
  fs.update place (Node.setLocked locked) fun _ hn => hn.setLocked locked

end FileSystem

end SqlSanity
