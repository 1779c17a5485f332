import SqlSanity.Report

/-!
# Rendering — reports as text

A report is a line with its status and path and one indented line for each error and then each
warning.  A batch has a heading with the number of its reports, the reports with an empty line after
each, and a closing line that counts them by status.  A run stands between a banner and a verdict.

* `Report.render`, `Batch.render`, `Survey.render`, `Run.render` — the texts.
-/

namespace SqlSanity

/-- A rule of sixty of one character. -/
def rule (c : Char) : String := String.ofList (List.replicate 60 c)

/-- A line of a report, under its heading. -/
def detailLine (kind message : String) : String := "  - " ++ kind ++ ": " ++ message ++ "\n"

/-- A report: its status and path, its errors, its warnings. -/
def Report.render (r : Report) : String :=
  r.status.tag ++ " " ++ r.path.display ++ "\n"
    ++ String.join (r.errors.map (detailLine "error"))
    ++ String.join (r.warnings.map (detailLine "warning"))

/-- The name of a directory for display: with one slash at its end, however many it came with. -/
def displayDirectory (name : String) : String :=
  String.ofList (name.toList.reverse.dropWhile (· == '/')).reverse ++ "/"

/-- The closing line of a batch: how many reports there are, in all and of each status. -/
def Batch.summary (b : Batch) (label : String) : String :=
  label ++ ": " ++ toString b.reports.length ++ " path(s), "
    ++ toString (b.count .success) ++ " passed, "
    ++ toString (b.count .warning) ++ " with warnings, "
    ++ toString (b.count .failure) ++ " failed\n"

/-- The batch of a tree at `path`, shown under a label. -/
def Batch.render (b : Batch) (label : String) (path : Path) : String :=
  if b.reports.isEmpty then
    Status.warning.tag ++ " no .sql files found in " ++ path.display ++ "\n"
  else
    "Checking " ++ toString b.reports.length ++ " path(s)...\n\n"
      ++ String.join (b.reports.map fun r => r.render ++ "\n")
      ++ b.summary label

/-- A survey: a heading and the batch, or a note that the directory is not there. -/
def Survey.render (s : Survey) : String :=
  let label := displayDirectory s.name
  match s.result with
  | none => Status.warning.tag ++ " directory " ++ label ++ " not found\n"
  | some b =>
    "\nValidating directory: " ++ label ++ "\n" ++ rule '-' ++ "\n" ++ b.render label s.path

/-- The title between two rules. -/
def banner : String := rule '=' ++ "\nPL/SQL Syntax Validator\n" ++ rule '=' ++ "\n"

/-- The last lines of a run: did everything pass. -/
def verdict (allValid : Bool) : String :=
  "\n" ++ rule '=' ++ "\n" ++
    if allValid then Status.success.tag ++ " All files validated successfully!\n"
    else Status.failure.tag ++ " Some files contain errors.\n"

/-- A run: the banner, each survey, the verdict. -/
def Run.render (r : Run) : String :=
  banner ++ String.join (r.directories.map Survey.render) ++ verdict r.allValid

end SqlSanity
