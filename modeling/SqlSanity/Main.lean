import SqlSanity.Execution
import SqlSanity.FileSystem.Change

/-!
# Main — the command line program

The program copies the part of the disk that its command line can look at into a `FileSystem`, by
`Change`s, and leaves the rest to `View.execute`.  Nothing here decides about a source.

* `Disk.describe` — a file or a whole tree on the disk, as changes;
* `main` — one run.
-/

namespace SqlSanity.Disk

/-- A path on the disk; a relative one starts at the root. -/
def onDisk (p : String) := (IO.FS.DirEntry.mk "/" p).path

/-- A path that no disk has. -/
def nowhere : Path := ⟨[Path.slash, 0]⟩

/-- A file or directory that cannot be read. -/
def sealed (c : Change) (p : String) : List Change := [c, .lock (.ofString p)]

/-- The file at a path. -/
def describeFile (p : String) : IO (List Change) := do
  try
    let content ← IO.FS.readBinFile p
    return [.write (.ofString p) content.toList]
  catch _ => return sealed (.write (.ofString p) []) p

/-- The link at a path, with the file or the directory that it leads to. -/
def describeLink (p : String) : IO (List Change) := do
  try
    let target ← (onDisk p).metadata
    let real := (← IO.FS.realPath p).toString
    let link : Change := .link (.ofString p) (.ofString real)
    match target.type with
    | .dir => return [.makeDirectory (.ofString real), link]
    | _ => return (← describeFile real) ++ [link]
  catch
    | .noFileOrDirectory .. => return [.link (.ofString p) nowhere]
    | _ => return [.link (.ofString p) (.ofString p)]

/-- The directory at a path, and whatever `inside` says of its entries. -/
def describeDirectory (p : String) (inside : String → IO (List Change)) : IO (List Change) := do
  let make : Change := .makeDirectory (.ofString p)
  try
    let entries ← (onDisk p).readDir
    let mut changes := [make]
    for e in entries do changes := changes ++ (← inside e.path.toString)
    return changes
  catch _ => return sealed make p

/-- Whatever is at a path; `inside` describes the entries of a directory. -/
def describeEntry (p : String) (inside : String → IO (List Change)) : IO (List Change) := do
  try
    match (← (onDisk p).symlinkMetadata).type with
    | .dir => describeDirectory p inside
    | .symlink => describeLink p
    | _ => describeFile p
  catch _ => return []

/-- What is at a path, and nothing below it. -/
def describeOne (p : String) : IO (List Change) := describeEntry p fun _ => return []

/-- What is at a path, with everything below it. -/
partial def describe (p : String) : IO (List Change) := describeEntry p describe

/-- The view after some changes; one that cannot be made is left out. -/
def apply (v : View) (cs : List Change) : View :=
  cs.foldl (fun v c => match v.change c with | .ok w => w | .error _ => v) v

/-- The view with the way to a path, and with what the path leads to as a whole. -/
def load (v : View) (p : Path) : IO View := do
  let mut v := v
  for above in p.properAncestors.reverse do v := apply v (← describeOne above.display)
  v := apply v (← describe p.display)
  match (v.findEntry p).toOption with
  | some (.link _) => return apply v (← describe (← IO.FS.realPath p.display).toString)
  | _ => return v

/-- The view from the working directory, with the directories `src` at and above it. -/
def start : IO View := do
  let here := Path.ofString (← IO.currentDir).toString
  let place := here.steps.filterMap FileName.ofBytes?
  let empty : View := ⟨.empty, ⟨place, false⟩⟩
  let mut v := apply empty [.makeDirectory here]
  for above in here.ancestors do
    v := apply v (← describeOne (above.join (.ofString "src")).display)
  return v

/-- The paths that an invocation looks at. -/
def targets (v : View) (i : Invocation) : List Path :=
  let scanned (names : List String) :=
    match v.resolveRoot i.root with
    | .error _ => []
    | .ok root =>
      (if names.isEmpty then defaultDirectories else names).map fun n => root.join (.ofString n)
  match i.command with
  | none => scanned []
  | some (.scan names) => scanned names
  | some (.directory p) | some (.file p) => [i.target p]

/-- The view that a command line needs. -/
def viewFor (words : List Bytes) : IO View := do
  let v ← start
  match Invocation.ofArguments words, v.currentDirectory with
  | .ok i, .ok here =>
    let mut w := v
    for p in targets v i do w ← load w (here.join p)
    return w
  | _, _ => return v

/-- What goes to the error stream. -/
def complaint (words : List Bytes) (e : Exit) : Option String :=
  match e.fatal with
  | some m => some ("Error: " ++ m)
  | none =>
    match Invocation.ofArguments words with
    | .error r => r.message.map fun m => "error: " ++ m
    | .ok _ => none

/-- One run: its output, its complaint if it has one, and its exit code. -/
def run (args : List String) : IO UInt32 := do
  let words := args.map fun a => Utf8.encode a.toList
  let e := (← viewFor words).execute words
  IO.print e.output
  match complaint words e with
  | some m => IO.eprintln m
  | none => pure ()
  return UInt32.ofNat e.code

end SqlSanity.Disk

/-- The program. -/
def main (args : List String) : IO UInt32 := SqlSanity.Disk.run args
