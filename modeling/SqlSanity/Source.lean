import SqlSanity.FileSystem.Lookup
import SqlSanity.Validation

/-!
# Source — reading a file as text, and the report on it

A source is a whole file that is UTF-8.  What cannot be read, or is no text, fails with one error
that names the path.

* `View.readSource` — the text of a file, or why there is none;
* `View.validateFile` — the report on a file.
-/

namespace SqlSanity

/-- Why a path gives no source. -/
inductive SourceError
  | notFound
  | unreadable (e : FileError)
  | notText (f : Utf8.Fault)
  deriving DecidableEq, Repr

/-- The cause in words, for a path. -/
def SourceError.message (path : Path) : SourceError → String
  | notFound => "file not found: " ++ path.display
  | unreadable e => "failed to read " ++ path.display ++ ": " ++ e.message
  | notText f => path.display ++ " is not valid UTF-8: " ++ f.message

/-- Only a missing entry means that the file is not found. -/
def SourceError.ofFileError : FileError → SourceError
  | .noEntry => .notFound
  | e => .unreadable e

/-- The text of the file that a path leads to. -/
def View.readSource (v : View) (p : Path) : Except SourceError Text :=
  match v.read p with
  | .error e => .error (.ofFileError e)
  | .ok bytes =>
    match Utf8.decode bytes with
    | .error f => .error (.notText f)
    | .ok t => .ok t

/-- The report on the file that a path leads to. -/
def View.validateFile (v : View) (p : Path) : Report :=
  match v.readSource p with
  | .ok t => t.validate p
  | .error e => .failed p (e.message p)

end SqlSanity
