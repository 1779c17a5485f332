import SqlSanity.FileSystem.Error
import SqlSanity.FileSystem.Node

/-!
# FileSystem/Lookup — what a path leads to

A path is followed step by step from the root or the working directory.  A step into a name needs a
directory that is not locked; `..` goes back to the directory that was entered; a link is replaced
by the steps of its target, at most forty times in one lookup.  A path that ends in a slash leads to
a directory or nowhere.  A path of more than 4095 bytes is refused before its first step.

* `Trail.walk` — the steps up to the first link;
* `FileSystem.follow` — the whole path, links included;
* `View.find`, `View.findEntry` — a lookup with the last link followed, and with it kept;
* `View.enter` — the view from another working directory.
-/

namespace SqlSanity

/-- The nodes passed on the way down from the root, the last one first. -/
abbrev Trail := List (FileName × Node)

namespace Trail

/-- The node that a trail ends at. -/
def here (root : Node) : Trail → Node
  | [] => root
  | e :: _ => e.2

/-- The names on a trail, from the root on. -/
def place (t : Trail) : List FileName := (t.map (·.1)).reverse

/-- Where a walk stops: at its end, at a link with steps still to take, at a last name that is not
there, or at an error. -/
inductive Stop
  | there (trail : Trail)
  | link (trail : Trail) (name : FileName) (target : Path) (rest : List Bytes)
  | absent (trail : Trail) (name : Bytes)
  | failed (e : FileError)

/-- The walk along some steps, up to the first link. -/
def walk (root : Node) : Trail → List Bytes → Stop
  | t, [] => .there t
  | t, s :: rest =>
    match here root t with
    | .directory true _ => .failed .denied
    | .directory false entries =>
      if s == [Path.dot] then walk root t rest
      else if s == [Path.dot, Path.dot] then walk root t.tail rest
      else if s.length > 255 then .failed .nameTooLong
      else match Entries.find entries s with
        | none => if rest.isEmpty then .absent t s else .failed .noEntry
        | some (name, .link target) => .link t name target rest
        | some e => walk root (e :: t) rest
    | _ => .failed .notDirectory

/-- The trail of real directories and files down a place, on top of a trail that is there. -/
def extend (root : Node) : Trail → List FileName → Option Trail
  | t, [] => some t
  | t, n :: place =>
    match here root t with
    | .directory _ entries =>
      (Entries.find entries n.bytes).bind fun e => extend root (e :: t) place
    | _ => none

end Trail

/-- What a lookup finds: a node at the end of a trail, or the place for a name that is not there. -/
inductive Found
  | there (trail : Trail)
  | absent (trail : Trail) (name : Bytes)

namespace FileSystem

/-- How many links one lookup follows. -/
def maxLinks : Nat := 40

/-- How many bytes a path may have. -/
def maxPathLength : Nat := 4095

/-- Follows some steps from a trail.  `last` tells whether a link at the very end is followed too,
and `onlyDirectory` whether only a directory will do. -/
def follow (fs : FileSystem) (last : Bool) :
    (links : Nat) → (onlyDirectory : Bool) → Trail → List Bytes → Except FileError Found
  | links, onlyDirectory, t, steps =>
    match t.walk fs.root steps with
    | .failed e => .error e
    | .absent t name => .ok (.absent t name)
    | .there t =>
      if onlyDirectory && !(t.here fs.root).isDirectory then .error .notDirectory
      else .ok (.there t)
    | .link t name target rest =>
      if rest.isEmpty && !last && !onlyDirectory then .ok (.there ((name, .link target) :: t))
      else if target.bytes.isEmpty then .error .noEntry
      else match links with
        | 0 => .error .tooManyLinks
        | links + 1 =>
          follow fs last links (onlyDirectory || (rest.isEmpty && target.endsInSlash))
            (if target.isAbsolute then [] else t) (target.steps ++ rest)

end FileSystem

/-- The path is refused for its length. -/
def Path.isTooLong (p : Path) : Bool := FileSystem.maxPathLength < p.bytes.length

/-- The working directory of a process: its place, and whether it has been removed since the process
entered it. -/
structure WorkingDirectory where
  place : List FileName
  removed : Bool := false

/-- A file system seen from a working directory. -/
structure View where
  files : FileSystem
  cwd : WorkingDirectory

namespace View

/-- The trail to the working directory.  A removed one is empty, and still has its parent above. -/
def start (v : View) : Option Trail :=
  if v.cwd.removed then
    match v.cwd.place.getLast? with
    | none => none
    | some name =>
      (Trail.extend v.files.root [] v.cwd.place.dropLast).map fun t =>
        (name, .directory false []) :: t
  else Trail.extend v.files.root [] v.cwd.place

/-- Looks a path up whatever slashes it ends in; `last` tells whether a link at its very end is
followed, and `onlyDirectory` whether only a directory will do. -/
def lookUp (v : View) (last onlyDirectory : Bool) (p : Path) : Except FileError Found :=
  if p.bytes.contains 0 then .error .nulByte
  else if p.isTooLong then .error .nameTooLong
  else if p.bytes.isEmpty then .error .noEntry
  else match if p.isAbsolute then some [] else v.start with
    | none => .error .noEntry
    | some t => v.files.follow last FileSystem.maxLinks onlyDirectory t p.steps

/-- Looks a path up, where a slash at its end calls for a directory. -/
def locate (v : View) (last : Bool) (p : Path) : Except FileError Found :=
  v.lookUp last p.endsInSlash p

/-- What a lookup found, as a node. -/
def nodeOf (v : View) : Except FileError Found → Except FileError Node
  | .ok (.there t) => .ok (t.here v.files.root)
  | .ok (.absent _ _) => .error .noEntry
  | .error e => .error e

/-- The node a path leads to, links followed to the end. -/
def find (v : View) (p : Path) : Except FileError Node := v.nodeOf (v.locate true p)

/-- The node a path names: a link at its end is not followed. -/
def findEntry (v : View) (p : Path) : Except FileError Node := v.nodeOf (v.locate false p)

/-- The path leads to a directory, locked or not. -/
def isDirectory (v : View) (p : Path) : Bool :=
  match v.find p with
  | .ok node => node.isDirectory
  | .error _ => false

/-- The view from the directory that a path leads to; a locked directory cannot be entered. -/
def enter (v : View) (p : Path) : Except FileError View :=
  match v.locate true p with
  | .error e => .error e
  | .ok (.absent _ _) => .error .noEntry
  | .ok (.there t) =>
    match t.here v.files.root with
    | .directory true _ => .error .denied
    | .directory false _ => .ok { v with cwd := ⟨t.place, false⟩ }
    | _ => .error .notDirectory

/-- The bytes of the file a path leads to. -/
def read (v : View) (p : Path) : Except FileError Bytes :=
  match v.find p with
  | .error e => .error e
  | .ok (.file false content) => .ok content
  | .ok (.file true _) => .error .denied
  | .ok (.directory true _) => .error .denied
  | .ok (.directory false _) => .error .isDirectory
  | .ok (.link _) => .error .tooManyLinks

/-- The path of a place, from the root. -/
def pathOf (place : List FileName) : Path :=
  match place with
  | [] => ⟨[Path.slash]⟩
  | names => ⟨names.flatMap fun n => Path.slash :: n.bytes⟩

/-- The absolute path of the working directory, unless it has been removed. -/
def currentDirectory (v : View) : Except FileError Path :=
  if v.cwd.removed then .error .noEntry else .ok (pathOf v.cwd.place)

end View

end SqlSanity
