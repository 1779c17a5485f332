import SqlSanity.Json.Basic
import SqlSanity.Report

/-!
# Json/Document — reports as JSON

The fields of each object stand in a fixed order.  A path is written as a string, so a report whose
path is no text has no JSON form, and neither has anything that holds it.

* `Report.toJson?`, `Batch.toJson?`, `Survey.toJson?`, `Run.toJson?` — the payloads;
* `Json.document` — a payload beside the flag that tells whether all is well.
-/

namespace SqlSanity

/-- The JSON form of a report. -/
def Report.toJson? (r : Report) : Option Json :=
  r.path.toString?.map fun path =>
    .object [("file_path", .string path), ("status", .string r.status.name),
      ("errors", Json.strings r.errors), ("warnings", Json.strings r.warnings)]

/-- The JSON form of a batch. -/
def Batch.toJson? (b : Batch) : Option Json :=
  (b.reports.mapM Report.toJson?).map fun reports =>
    .object [("all_valid", .bool b.allValid), ("reports", .array reports)]

/-- The JSON form of what a survey found, `null` when it found nothing. -/
def Survey.resultJson? (s : Survey) : Option Json :=
  match s.result with
  | none => some .null
  | some b => b.toJson?

/-- The JSON form of a survey. -/
def Survey.toJson? (s : Survey) : Option Json :=
  s.path.toString?.bind fun path => s.resultJson?.map fun result =>
    .object [("name", .string s.name), ("path", .string path), ("found", .bool s.found),
      ("result", result)]

/-- The JSON form of a run. -/
def Run.toJson? (r : Run) : Option Json :=
  r.root.toString?.bind fun root => (r.directories.mapM Survey.toJson?).map fun directories =>
    .object [("root", .string root), ("directories", .array directories),
      ("all_valid", .bool r.allValid)]

/-- A payload beside the flag that tells whether all is well. -/
def Json.document (ok : Bool) (data : Json) : Json := .object [("ok", .bool ok), ("data", data)]

end SqlSanity
