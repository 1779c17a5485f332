import SqlSanity.Path.Basic

/-!
# Report — what is said about a file, a directory and a whole run

A report is about one path: errors fail it, warnings alone do not.  A batch holds the reports of one
directory tree, a survey says whether a named directory was there and what its batch is, and a run
holds one survey for each name.

* `Report.status_ofFindings` — the status that findings call for;
* `Batch.allValid_ofReports_iff` — a batch passes exactly when each of its reports does.
-/

namespace SqlSanity

/-- How a path fared. -/
inductive Status
  | success
  | warning
  | failure
  deriving DecidableEq, Repr

/-- The status in the margin of a text report. -/
def Status.tag : Status → String
  | success => "[SUCCESS]"
  | warning => "[WARNING]"
  | failure => "[FAILURE]"

/-- The status as data. -/
def Status.name : Status → String
  | success => "success"
  | warning => "warning"
  | failure => "failure"

/-- What is said about one path. -/
structure Report where
  path : Path
  status : Status
  errors : List String
  warnings : List String
  deriving DecidableEq, Repr

namespace Report

/-- The report of some findings: an error makes it a failure, and a warning alone a warning. -/
def ofFindings (path : Path) (errors warnings : List String) : Report where
  path
  status := if errors.isEmpty then if warnings.isEmpty then .success else .warning else .failure
  errors
  warnings

/-- The report of a path that fails for one reason. -/
def failed (path : Path) (error : String) : Report := ⟨path, .failure, [error], []⟩

/-- A report passes unless it is a failure. -/
def isValid (r : Report) : Bool := r.status != .failure

/-- The status that findings call for. -/
theorem status_ofFindings (p : Path) (es ws : List String) :
    (ofFindings p es ws).status
      = if es = [] then if ws = [] then .success else .warning else .failure := by
  simp [ofFindings]

end Report

/-- The reports of one directory tree, and whether all of them pass. -/
structure Batch where
  allValid : Bool
  reports : List Report
  deriving DecidableEq, Repr

namespace Batch

/-- The batch of some reports. -/
def ofReports (reports : List Report) : Batch := ⟨reports.all Report.isValid, reports⟩

/-- How many reports have a status. -/
def count (b : Batch) (s : Status) : Nat := b.reports.countP fun r => r.status == s

/-- **A batch passes exactly when each of its reports does.** -/
theorem allValid_ofReports_iff {rs : List Report} :
    (ofReports rs).allValid = true ↔ ∀ r ∈ rs, r.isValid = true :=
  List.all_eq_true

end Batch

/-- What became of one named directory: where it was looked for, whether it was there, and its
batch. -/
structure Survey where
  name : String
  path : Path
  found : Bool
  result : Option Batch
  deriving DecidableEq, Repr

namespace Survey

/-- A directory that is not there passes. -/
def isValid (s : Survey) : Bool :=
  match s.result with
  | none => true
  | some b => b.allValid

end Survey

/-- The surveys of the directories under one root, and whether all of them pass. -/
structure Run where
  root : Path
  directories : List Survey
  allValid : Bool
  deriving DecidableEq, Repr

/-- The run of some surveys. -/
def Run.ofSurveys (root : Path) (directories : List Survey) : Run :=
  ⟨root, directories, directories.all Survey.isValid⟩

end SqlSanity
