import SqlSanity.FileSystem.Lookup
import SqlSanity.Report

/-!
# Discovery — the SQL files of a directory tree

A walk visits a tree in pre-order, the entries of each directory in the byte order of their names.
It collects the regular files and the links to anything but a directory whose names end in `.sql`,
and apart from them the places where it could not go on.  A link is not descended into, except that
the start of the walk is followed when it is a link itself.

* `Discovery.files_append`, `Discovery.obstacles_append` — walks of siblings are put side by side;
* `View.discover` — the walk from a path.
-/

namespace SqlSanity

/-- A place where a walk could not go on. -/
structure Obstacle where
  path : Path
  error : FileError
  deriving DecidableEq, Repr

/-- The obstacle in words. -/
def Obstacle.message (o : Obstacle) : String :=
  "IO error for operation on " ++ o.path.display ++ ": " ++ o.error.message

/-- The report on a place where a walk could not go on. -/
def Obstacle.report (o : Obstacle) : Report := .failed o.path o.message

/-- What a walk collects: files, and places where it could not go on, each in the order met. -/
structure Discovery where
  files : List Path
  obstacles : List Obstacle
  deriving DecidableEq, Repr

namespace Discovery

/-- Nothing is met. -/
def none : Discovery := ⟨[], []⟩

/-- One walk after another. -/
instance : Append Discovery := ⟨fun a b => ⟨a.files ++ b.files, a.obstacles ++ b.obstacles⟩⟩

@[simp] theorem files_append (a b : Discovery) : (a ++ b).files = a.files ++ b.files := rfl

@[simp] theorem obstacles_append (a b : Discovery) :
    (a ++ b).obstacles = a.obstacles ++ b.obstacles := rfl

end Discovery

/-- The extension of SQL files. -/
def sqlExtension : Bytes := [0x73, 0x71, 0x6c]

/-- The path has the extension of SQL files. -/
def Path.isSql (p : Path) : Bool := p.extension? == some sqlExtension

namespace View

/-- A file that a walk meets: collected when it is an SQL file. -/
def collect (p : Path) : Discovery := if p.isSql then ⟨[p], []⟩ else .none

mutual

/-- The walk of a node that `p` leads to. -/
def walk (v : View) (p : Path) : Node → Discovery
  | .file _ _ => collect p
  | .link _ => if v.isDirectory p then .none else collect p
  | .directory locked entries =>
    if p.isTooLong then ⟨[], [⟨p, .nameTooLong⟩]⟩
    else if locked then ⟨[], [⟨p, .denied⟩]⟩
    else walkEntries v p entries

/-- The walks of the entries of the directory that `p` leads to. -/
def walkEntries (v : View) (p : Path) : List (FileName × Node) → Discovery
  | [] => .none
  | (name, node) :: entries => walk v (p.join name.toPath) node ++ walkEntries v p entries

end

/-- The walk from a path. -/
def discover (v : View) (p : Path) : Discovery :=
  match v.findEntry p with
  | .error e => ⟨[], [⟨p, e⟩]⟩
  | .ok (.link _) =>
    match v.find p with
    | .error e => ⟨[], [⟨p, e⟩]⟩
    | .ok node => if node.isDirectory then v.walk p node else collect p
  | .ok node => v.walk p node

end View

end SqlSanity
