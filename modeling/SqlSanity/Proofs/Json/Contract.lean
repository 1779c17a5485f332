import SqlSanity.Proofs.Execution
import SqlSanity.Proofs.Json.Schema
import SqlSanity.Proofs.Scan.Reports

/-!
# Proofs/Json/Contract — documents keep the published contract

The contract names every field of a document and the type of its value.  Each command has a payload
of one kind, the kinds have different fields, and so a document tells which command it comes from.
The statuses in it are those of the reports, each once, and so its verdict can be told from them.

* `Contract.output` — the published schema;
* `Payload.accepts_iff` — the part of the contract that a payload keeps, and no other;
* `Payload.stringsAt_of_toJson?` — the statuses in the JSON form of a payload;
* `View.isValid_payload_iff` — the verdict of a command, by the reports;
* `View.perform_json_contract` — what a command prints in JSON.
-/

namespace SqlSanity

/-! ## The published schema -/

namespace Contract

/-- A status by its name. -/
def status : Schema := .enum ["success", "warning", "failure"]

/-- The report on a file or on a place where a walk could not go on. -/
def validationReport : Schema :=
  .object [("file_path", .string), ("status", status), ("errors", .array .string),
    ("warnings", .array .string)]

/-- The reports of a directory. -/
def directoryResult : Schema :=
  .object [("all_valid", .boolean), ("reports", .array validationReport)]

/-- What became of a named directory. -/
def directoryScan : Schema :=
  .object [("name", .string), ("path", .string), ("found", .boolean),
    ("result", .oneOf [.null, directoryResult])]

/-- What became of all named directories. -/
def runReport : Schema :=
  .object [("root", .string), ("all_valid", .boolean), ("directories", .array directoryScan)]

/-- A document. -/
def output : Schema :=
  .object [("ok", .boolean), ("data", .oneOf [runReport, directoryScan, validationReport])]

end Contract

open Contract

/-! ## Payloads keep the contract -/

/-- A status has one of the names that are published. -/
theorem Status.accepts_name (s : Status) : status.accepts (.string s.name) = true := by
  cases s <;> rfl

theorem Status.name_eq_failure_iff {s : Status} : s.name = "failure" ↔ s = .failure := by
  cases s <;> simp [name]

theorem Json.accepts_strings (ss : List String) :
    (Schema.array .string).accepts (Json.strings ss) = true := by
  refine Schema.accepts_array_iff.2 ⟨_, rfl, fun j hj => ?_⟩
  obtain ⟨s, -, rfl⟩ := List.mem_map.1 hj
  rfl

/-- What is written for a list is accepted when what is written for each of it is. -/
theorem Schema.accepts_of_mapM {α : Type} {f : α → Option Json} {s : Schema}
    (h : ∀ {x j}, f x = some j → s.accepts j = true) {xs : List α} {js : List Json}
    (hxs : xs.mapM f = some js) : (Schema.array s).accepts (.array js) = true := by
  refine Schema.accepts_array_iff.2 ⟨js, rfl, ?_⟩
  have hall := mapM_eq_some_iff.1 hxs
  induction hall with
  | nil => exact fun j hj => absurd hj List.not_mem_nil
  | cons hx hrest ih => exact List.forall_mem_cons.2 ⟨h hx, ih (mapM_eq_some_iff.2 hrest)⟩

theorem Report.accepts_of_toJson? {r : Report} {j : Json} (h : r.toJson? = some j) :
    validationReport.accepts j = true := by
  obtain ⟨path, -, rfl⟩ := Option.map_eq_some_iff.1 h
  refine Schema.accepts_object_iff.2 ⟨_, rfl, .refl _, ?_⟩
  simp only [List.forall_mem_cons]
  exact ⟨⟨_, rfl, rfl⟩, ⟨_, rfl, Status.accepts_name r.status⟩,
    ⟨_, rfl, Json.accepts_strings r.errors⟩, ⟨_, rfl, Json.accepts_strings r.warnings⟩,
    List.forall_mem_nil _⟩

theorem Batch.accepts_of_toJson? {b : Batch} {j : Json} (h : b.toJson? = some j) :
    directoryResult.accepts j = true := by
  obtain ⟨reports, hreports, rfl⟩ := Option.map_eq_some_iff.1 h
  refine Schema.accepts_object_iff.2 ⟨_, rfl, .refl _, ?_⟩
  simp only [List.forall_mem_cons]
  exact ⟨⟨_, rfl, rfl⟩,
    ⟨_, rfl, Schema.accepts_of_mapM Report.accepts_of_toJson? hreports⟩, List.forall_mem_nil _⟩

/-- What a survey found keeps one of two contracts: nothing, or the reports of a directory. -/
theorem Survey.accepts_of_resultJson? {s : Survey} {j : Json} (h : s.resultJson? = some j) :
    (Schema.oneOf [.null, directoryResult]).accepts j = true := by
  rw [Schema.accepts_oneOf_iff]
  rw [resultJson?] at h
  split at h
  · obtain rfl := Option.some.inj h
    rfl
  · next b _ =>
    have hbatch := Batch.accepts_of_toJson? h
    obtain ⟨reports, -, rfl⟩ := Option.map_eq_some_iff.1 h
    rw [List.countP_cons, List.countP_singleton, hbatch]
    rfl

theorem Survey.accepts_of_toJson? {s : Survey} {j : Json} (h : s.toJson? = some j) :
    directoryScan.accepts j = true := by
  obtain ⟨path, -, h⟩ := Option.bind_eq_some_iff.1 h
  obtain ⟨result, hresult, rfl⟩ := Option.map_eq_some_iff.1 h
  refine Schema.accepts_object_iff.2 ⟨_, rfl, .refl _, ?_⟩
  simp only [List.forall_mem_cons]
  exact ⟨⟨_, rfl, rfl⟩, ⟨_, rfl, rfl⟩, ⟨_, rfl, rfl⟩,
    ⟨_, rfl, accepts_of_resultJson? hresult⟩, List.forall_mem_nil _⟩

theorem Run.accepts_of_toJson? {r : Run} {j : Json} (h : r.toJson? = some j) :
    runReport.accepts j = true := by
  obtain ⟨root, -, h⟩ := Option.bind_eq_some_iff.1 h
  obtain ⟨directories, hdirectories, rfl⟩ := Option.map_eq_some_iff.1 h
  refine Schema.accepts_object_iff.2 ⟨_, rfl, (List.Perm.swap _ _ _).cons _, ?_⟩
  simp only [List.forall_mem_cons]
  exact ⟨⟨_, rfl, rfl⟩,
    ⟨_, rfl, Schema.accepts_of_mapM Survey.accepts_of_toJson? hdirectories⟩, ⟨_, rfl, rfl⟩,
    List.forall_mem_nil _⟩

/-! ## Payloads are told apart -/

namespace Payload

/-- The names of the fields of a payload. -/
def keys : Payload → List String
  | report _ => ["file_path", "status", "errors", "warnings"]
  | batch _ => ["all_valid", "reports"]
  | survey _ => ["name", "path", "found", "result"]
  | run _ => ["root", "directories", "all_valid"]

theorem keys_of_toJson? {j : Json} : ∀ {x : Payload}, x.toJson? = some j → j.keys = x.keys
  | report _, h => by
    obtain ⟨_, -, rfl⟩ := Option.map_eq_some_iff.1 h
    rfl
  | batch _, h => by
    obtain ⟨_, -, rfl⟩ := Option.map_eq_some_iff.1 h
    rfl
  | survey _, h => by
    obtain ⟨_, -, h⟩ := Option.bind_eq_some_iff.1 h
    obtain ⟨_, -, rfl⟩ := Option.map_eq_some_iff.1 h
    rfl
  | run _, h => by
    obtain ⟨_, -, h⟩ := Option.bind_eq_some_iff.1 h
    obtain ⟨_, -, rfl⟩ := Option.map_eq_some_iff.1 h
    rfl

/-- Each kind has a field that no other kind has. -/
theorem eq_of_mem_keys (x : Payload) :
    ("root" ∈ x.keys → ∃ r, x = run r) ∧ ("found" ∈ x.keys → ∃ s, x = survey s) ∧
      ("file_path" ∈ x.keys → ∃ r, x = report r) := by
  cases x <;> simp [keys]

/-- **A payload keeps the part of the contract that is about its kind, and no other.** -/
theorem accepts_iff {x : Payload} {j : Json} (h : x.toJson? = some j) :
    (runReport.accepts j = true ↔ ∃ r, x = run r) ∧
      (directoryScan.accepts j = true ↔ ∃ s, x = survey s) ∧
      (validationReport.accepts j = true ↔ ∃ r, x = report r) := by
  have hmem : ∀ {fields k}, (Schema.object fields).accepts j = true →
      k ∈ fields.map Prod.fst → k ∈ x.keys := by
    intro fields k hj hk
    rw [← keys_of_toJson? h]
    exact (Json.keys_perm_of_accepts hj).mem_iff.2 hk
  obtain ⟨hroot, hfound, hpath⟩ := eq_of_mem_keys x
  refine ⟨⟨fun hj => hroot (hmem hj (by simp)), ?_⟩, ⟨fun hj => hfound (hmem hj (by simp)), ?_⟩,
    ⟨fun hj => hpath (hmem hj (by simp)), ?_⟩⟩
  · rintro ⟨r, rfl⟩
    exact Run.accepts_of_toJson? h
  · rintro ⟨s, rfl⟩
    exact Survey.accepts_of_toJson? h
  · rintro ⟨r, rfl⟩
    exact Report.accepts_of_toJson? h

end Payload

/-! ## The statuses in a payload -/

/-- What stands under a name in what is written for a list. -/
theorem Json.stringsAtItems_of_mapM {α : Type} {name : String} {f : α → Option Json}
    {g : α → List String} (h : ∀ {x j}, f x = some j → j.stringsAt name = g x) {xs : List α}
    {js : List Json} (hxs : xs.mapM f = some js) : stringsAtItems name js = xs.flatMap g := by
  have hall := mapM_eq_some_iff.1 hxs
  induction hall with
  | nil => rfl
  | cons hx hrest ih =>
    rw [stringsAtItems, h hx, ih (mapM_eq_some_iff.2 hrest), List.flatMap_cons]

/-- The name of the status of a report. -/
def Report.statusName (r : Report) : String := r.status.name

/-- The reports of a survey. -/
def Survey.reports (s : Survey) : List Report := s.result.elim [] Batch.reports

theorem Report.stringsAt_of_toJson? {r : Report} {j : Json} (h : r.toJson? = some j) :
    j.stringsAt "status" = [r.statusName] := by
  obtain ⟨path, -, rfl⟩ := Option.map_eq_some_iff.1 h
  simp [Json.stringsAt, Json.stringsAtFields, Json.string?, statusName]

theorem Batch.stringsAt_of_toJson? {b : Batch} {j : Json} (h : b.toJson? = some j) :
    j.stringsAt "status" = b.reports.map Report.statusName := by
  obtain ⟨reports, hreports, rfl⟩ := Option.map_eq_some_iff.1 h
  have hitems := Json.stringsAtItems_of_mapM Report.stringsAt_of_toJson? hreports
  rw [← List.map_eq_flatMap] at hitems
  simp [Json.stringsAt, Json.stringsAtFields, hitems]

theorem Survey.stringsAt_of_toJson? {s : Survey} {j : Json} (h : s.toJson? = some j) :
    j.stringsAt "status" = s.reports.map Report.statusName := by
  obtain ⟨path, -, h⟩ := Option.bind_eq_some_iff.1 h
  obtain ⟨result, hresult, rfl⟩ := Option.map_eq_some_iff.1 h
  have hstatus : result.stringsAt "status" = s.reports.map Report.statusName := by
    rw [resultJson?] at hresult
    rw [reports]
    split at hresult
    · next hnone =>
      obtain rfl := Option.some.inj hresult
      rw [hnone]
      rfl
    · next b hsome =>
      rw [hsome]
      exact Batch.stringsAt_of_toJson? hresult
  simp [Json.stringsAt, Json.stringsAtFields, hstatus]

theorem Run.stringsAt_of_toJson? {r : Run} {j : Json} (h : r.toJson? = some j) :
    j.stringsAt "status" = (r.directories.flatMap Survey.reports).map Report.statusName := by
  obtain ⟨root, -, h⟩ := Option.bind_eq_some_iff.1 h
  obtain ⟨directories, hdirectories, rfl⟩ := Option.map_eq_some_iff.1 h
  have hitems := Json.stringsAtItems_of_mapM Survey.stringsAt_of_toJson? hdirectories
  rw [← List.map_flatMap] at hitems
  simp [Json.stringsAt, Json.stringsAtFields, hitems]

/-- The reports in a payload. -/
def Payload.reports : Payload → List Report
  | report r => [r]
  | batch b => b.reports
  | survey s => s.reports
  | run r => r.directories.flatMap Survey.reports

/-- **The statuses in the JSON form of a payload are those of its reports**, in their order. -/
theorem Payload.stringsAt_of_toJson? {j : Json} : ∀ {x : Payload}, x.toJson? = some j →
    j.stringsAt "status" = x.reports.map Report.statusName
  | report _, h => Report.stringsAt_of_toJson? h
  | batch _, h => Batch.stringsAt_of_toJson? h
  | survey _, h => Survey.stringsAt_of_toJson? h
  | run _, h => Run.stringsAt_of_toJson? h

/-! ## What is printed -/

namespace View

variable {v : View} {i : Invocation} {x : Payload} {o : Outcome}

/-- **The verdict of a command is that no report is a failure.** -/
theorem isValid_payload_iff (h : v.payload i = .ok x) :
    x.isValid = true ↔ ∀ r ∈ x.reports, r.status ≠ .failure := by
  have hsurvey : ∀ s : Survey, (∀ b ∈ s.result, ∀ r ∈ b.reports, r.status ≠ .failure) ↔
      ∀ r ∈ s.reports, r.status ≠ .failure := by
    rintro ⟨name, path, found, _ | b⟩ <;> simp [Survey.reports]
  rw [payload] at h
  split at h
  · obtain ⟨root, -, rfl⟩ := Except.map_eq_ok_iff.1 h
    rw [Payload.isValid, Payload.reports, allValid_run_iff_reports, List.forall_mem_flatMap]
    exact forall₂_congr fun s _ => hsurvey s
  · cases h
    exact (tallies_survey _).isValid_iff.trans (hsurvey _)
  · cases h
    rw [Payload.reports, List.forall_mem_singleton]
    exact Report.isValid_iff

/-- What a command prints in JSON is the document of its payload. -/
theorem exists_document_of_perform (hjson : i.json = true) (ho : v.perform i = .ok o) :
    ∃ x data, v.payload i = .ok x ∧ x.toJson? = some data ∧
      o = ⟨x.isValid, (Json.document x.isValid data).text ++ "\n"⟩ := by
  rcases hx : v.payload i with e | x
  · rw [perform_of_payload_error hx] at ho
    cases ho
  · obtain ⟨text, hperform⟩ := exists_perform_eq hx
    rw [hperform, if_pos hjson] at ho
    obtain ⟨data, hdata, rfl⟩ := Outcome.ofDocument_eq_ok_iff.1 ho
    exact ⟨x, data, rfl, hdata, rfl⟩

/-- The kind of a payload tells the command that it comes from. -/
theorem payload_kind (h : v.payload i = .ok x) :
    ((∃ r, x = .run r) ↔ ∃ names, i.command.getD (.scan []) = .scan names) ∧
      ((∃ s, x = .survey s) ↔ ∃ p, i.command.getD (.scan []) = .directory p) ∧
      ((∃ r, x = .report r) ↔ ∃ p, i.command.getD (.scan []) = .file p) := by
  rw [payload] at h
  split at h
  · next names hcommand =>
    obtain ⟨root, -, rfl⟩ := Except.map_eq_ok_iff.1 h
    simp [hcommand]
  · next p hcommand =>
    cases h
    simp [hcommand]
  · next p hcommand =>
    cases h
    simp [hcommand]

/-- **The data of a document keeps the part of the contract that is about its command**, and no
other. -/
theorem accepts_data_iff {data : Json} (h : v.payload i = .ok x) (hdata : x.toJson? = some data) :
    (runReport.accepts data = true ↔ ∃ names, i.command.getD (.scan []) = .scan names) ∧
      (directoryScan.accepts data = true ↔ ∃ p, i.command.getD (.scan []) = .directory p) ∧
      (validationReport.accepts data = true ↔ ∃ p, i.command.getD (.scan []) = .file p) := by
  obtain ⟨hrun, hsurvey, hreport⟩ := Payload.accepts_iff hdata
  obtain ⟨hscan, hdirectory, hfile⟩ := payload_kind h
  exact ⟨hrun.trans hscan, hsurvey.trans hdirectory, hreport.trans hfile⟩

/-- A document keeps the contract. -/
theorem accepts_document {data : Json} (ok : Bool) (h : v.payload i = .ok x)
    (hdata : x.toJson? = some data) : Contract.output.accepts (Json.document ok data) = true := by
  obtain ⟨hscan, hdirectory, hfile⟩ := accepts_data_iff h hdata
  have hone : (Schema.oneOf [runReport, directoryScan, validationReport]).accepts data = true := by
    rw [Schema.accepts_oneOf_iff]
    rcases hcommand : i.command.getD (.scan []) with names | p | p
    · simp [hscan, hdirectory, hfile, hcommand]
    · simp [hscan, hdirectory, hfile, hcommand]
    · simp [hscan, hdirectory, hfile, hcommand]
  refine Schema.accepts_object_iff.2 ⟨_, rfl, .refl _, ?_⟩
  simp only [List.forall_mem_cons]
  exact ⟨⟨_, rfl, rfl⟩, ⟨_, rfl, hone⟩, List.forall_mem_nil _⟩

/-- **Documents keep the published contract.**  What a command prints in JSON is one document, with
its verdict beside its data.  The contract accepts the document, and of the three kinds of data the
one that is accepted is that of the command.  The verdict is that no status in the data, at any
depth, is a failure. -/
theorem perform_json_contract (hjson : i.json = true) (ho : v.perform i = .ok o) :
    ∃ data, (Json.IsDocument (.object [("ok", .bool o.ok), ("data", data)]) o.output ∧
        ∀ d, Json.IsDocument d o.output → d = .object [("ok", .bool o.ok), ("data", data)]) ∧
      Contract.output.accepts (.object [("ok", .bool o.ok), ("data", data)]) = true ∧
      (runReport.accepts data = true ↔ ∃ names, i.command.getD (.scan []) = .scan names) ∧
      (directoryScan.accepts data = true ↔ ∃ p, i.command.getD (.scan []) = .directory p) ∧
      (validationReport.accepts data = true ↔ ∃ p, i.command.getD (.scan []) = .file p) ∧
      (o.ok = true ↔ "failure" ∉ data.stringsAt "status") := by
  obtain ⟨x, data, hx, hdata, rfl⟩ := exists_document_of_perform hjson ho
  obtain ⟨hscan, hdirectory, hfile⟩ := accepts_data_iff hx hdata
  have hdocument : Json.IsDocument (Json.document x.isValid data)
      ((Json.document x.isValid data).text ++ "\n") :=
    Json.isDocument_text _ "\n" (by simp [Json.IsLayout, Json.isLayoutChar])
  refine ⟨data, ⟨hdocument, fun d hd => ?_⟩, accepts_document x.isValid hx hdata, hscan, hdirectory,
    hfile, ?_⟩
  · have hread := Json.read?_of_isDocument hdocument
    rw [Json.read?_of_isDocument hd] at hread
    exact Option.some.inj hread
  · rw [Payload.stringsAt_of_toJson? hdata, List.mem_map]
    refine (isValid_payload_iff hx).trans ⟨fun hall => ?_, fun hnone r hr hfail => ?_⟩
    · rintro ⟨r, hr, hname⟩
      exact hall r hr (Status.name_eq_failure_iff.1 hname)
    · exact hnone ⟨r, hr, Status.name_eq_failure_iff.2 hfail⟩

/-- The check of an empty file prints a document that keeps the contract for files and no other,
and it says that the file is a failure. -/
theorem perform_json_contract_emptySource :
    ∃ o data, emptySource.perform ⟨true, none, some (.file (srcPath.below [sqlName]))⟩ = .ok o ∧
      Json.IsDocument (.object [("ok", .bool false), ("data", data)]) o.output ∧
      validationReport.accepts data = true ∧ runReport.accepts data = false ∧
      "failure" ∈ data.stringsAt "status" := by
  have hpayload : emptySource.payload ⟨true, none, some (.file (srcPath.below [sqlName]))⟩ =
      .ok (.report (emptySource.validateFile (srcPath.below [sqlName]))) := rfl
  have htext : ∀ p ∈ (Payload.report (emptySource.validateFile (srcPath.below [sqlName]))).paths,
      p.IsText := by
    intro p hp
    rw [Payload.paths, List.mem_singleton, path_validateFile] at hp
    exact ⟨"/r/src/a.sql", hp.trans (by rfl)⟩
  have hfail : (Payload.report (emptySource.validateFile (srcPath.below [sqlName]))).isValid =
      false := by rfl
  obtain ⟨j, -, hperform⟩ := perform_json hpayload rfl htext
  obtain ⟨data, ⟨hdocument, -⟩, -, hscan, -, hfile, hstatus⟩ := perform_json_contract rfl hperform
  rw [hfail] at hdocument hstatus
  refine ⟨_, data, hperform, hdocument, hfile.2 ⟨_, rfl⟩, ?_, ?_⟩
  · refine Bool.eq_false_iff.2 fun h => ?_
    obtain ⟨names, hnames⟩ := hscan.1 h
    cases hnames
  · exact Classical.not_not.1 fun h => Bool.false_ne_true (hstatus.2 h)

end View

end SqlSanity
