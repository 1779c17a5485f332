import SqlSanity.Discovery
import SqlSanity.Path.Ancestors
import SqlSanity.Source

/-!
# Scan — checking a tree, a named directory, and all directories under a root

A tree is checked file by file in walk order, and the places where the walk could not go on come
after the files.  The root of a scan is given, or else it is the nearest directory, from the working
directory upwards, that has a directory `src` in it.

* `View.validateDirectory` — the reports of a tree;
* `View.survey` — one named directory;
* `View.run` — all named directories under a root;
* `View.detectRoot` — the root that a start lies under.
-/

namespace SqlSanity

/-- The directories that a scan checks when none are named. -/
def defaultDirectories : List String := ["src", "data", "tests"]

namespace View

/-- The reports of a tree: those of its SQL files in walk order, then those of the places where the
walk could not go on. -/
def validateDirectory (v : View) (p : Path) : Batch :=
  let d := v.discover p
  .ofReports (d.files.map v.validateFile ++ d.obstacles.map Obstacle.report)

/-- The check of one named directory, which may not be there. -/
def survey (v : View) (name : String) (p : Path) : Survey :=
  if v.isDirectory p then ⟨name, p, true, some (v.validateDirectory p)⟩
  else ⟨name, p, false, none⟩

/-- The check of the named directories under a root. -/
def run (v : View) (root : Path) (names : List String) : Run :=
  .ofSurveys root (names.map fun name => v.survey name (root.join (.ofString name)))

/-- A directory `src` is in the directory. -/
def hasSource (v : View) (p : Path) : Bool := v.isDirectory (p.join (.ofString "src"))

/-- The root that `start` lies under: the nearest of its ancestors with a directory `src`, `start`
first, and `start` itself when none has one. -/
def detectRoot (v : View) (start : Path) : Path :=
  (start.ancestors.find? v.hasSource).getD start

/-- The root of a scan: the one given, or the one that the working directory lies under. -/
def resolveRoot (v : View) : Option Path → Except FileError Path
  | some root => .ok root
  | none => v.currentDirectory.map v.detectRoot

end View

end SqlSanity
