import Mathlib.Data.List.Forall2
import SqlSanity.Proofs.Discovery
import SqlSanity.Proofs.Source
import SqlSanity.Scan

/-!
# Proofs/Scan/Reports — the reports of a run are consistent at every level

What is said about a file is said again for its directory and for the run: a status repeats what the
findings are, a flag repeats what the statuses are, and a survey repeats in two fields whether its
directory was there.  Reports have four origins, a source, a blank source, a file that gives no
source and a place where a walk could not go on, and no origin and no level says anything else than
the others.

* `View.isConsistent_validateFile` — the status of the report on a file says what its findings are;
* `View.reportsWalk_validateDirectory` — the reports of a tree, in their order;
* `View.pairwise_path_validateDirectory` — the reports of a tree are about different paths;
* `View.tallies_survey` — what is said about a named directory;
* `View.run_consistent` — what is said about all of them.
-/

namespace SqlSanity

/-! ## One report -/

/-- The status of a report says what its findings are. -/
structure Report.IsConsistent (r : Report) : Prop where
  /-- A failure has an error. -/
  failure : r.status = .failure ↔ r.errors ≠ []
  /-- A warning has a warning and no error. -/
  warning : r.status = .warning ↔ r.errors = [] ∧ r.warnings ≠ []
  /-- A success has neither. -/
  success : r.status = .success ↔ r.errors = [] ∧ r.warnings = []

theorem Report.isConsistent_failed (p : Path) (e : String) : (failed p e).IsConsistent where
  failure := by simp [failed]
  warning := by simp [failed]
  success := by simp [failed]

theorem Report.isValid_iff {r : Report} : r.isValid = true ↔ r.status ≠ .failure := by
  simp [isValid]

/-! ## The reports of a tree -/

/-- The flag of a batch says what its reports are, and each of them is counted once. -/
structure Batch.IsConsistent (b : Batch) : Prop where
  report : ∀ r ∈ b.reports, r.IsConsistent
  allValid : b.allValid = true ↔ ∀ r ∈ b.reports, r.status ≠ .failure
  count : b.count .success + b.count .warning + b.count .failure = b.reports.length

/-- Each report has one status. -/
theorem Batch.count_add_count (b : Batch) :
    b.count .success + b.count .warning + b.count .failure = b.reports.length := by
  obtain ⟨allValid, reports⟩ := b
  simp only [count]
  induction reports with
  | nil => rfl
  | cons r rs ih =>
    simp only [List.countP_cons, List.length_cons, ← ih]
    rcases r.status <;> simp <;> omega

namespace View

variable {v : View} {p q root : Path}

/-- The reports are those of the walk from a path: one for each file, in walk order and as the file
is reported on alone, and then one for each place where the walk could not go on, each with one
error and no warning. -/
def ReportsWalk (v : View) (p : Path) (reports : List Report) : Prop :=
  ∃ files obstacles, reports = files ++ obstacles ∧
    (files.map Report.path = (v.discover p).files ∧
      (files.Pairwise fun r r' => r.path.steps < r'.path.steps) ∧
      ∀ r ∈ files, r = v.validateFile r.path) ∧
    (obstacles.map Report.path = (v.discover p).obstacles.map Obstacle.path ∧
      ∀ r ∈ obstacles, ∃ e, r.errors = [e] ∧ r.warnings = [])

/-- **The status of the report on a file says what its findings are**, whether there is a source or
not. -/
theorem isConsistent_validateFile : (v.validateFile p).IsConsistent := by
  rw [validateFile]
  split
  · next t _ =>
    obtain ⟨hfailure, hwarning, hsuccess⟩ := Text.status_validate (t := t) (p := p)
    exact ⟨hfailure, hwarning, hsuccess⟩
  · exact Report.isConsistent_failed _ _

theorem map_path_validateFile (files : List Path) :
    (files.map v.validateFile).map Report.path = files := by
  rw [List.map_map]
  exact List.map_id'' (fun _ => path_validateFile) files

/-- **The reports of a tree are those of its walk**, in its order. -/
theorem reportsWalk_validateDirectory : v.ReportsWalk p (v.validateDirectory p).reports := by
  refine ⟨_, _, rfl, ⟨map_path_validateFile _, ?_, ?_⟩, List.map_map, ?_⟩
  · refine List.pairwise_map.2 (pairwise_files_discover.imp fun {a b} hlt => ?_)
    rw [path_validateFile, path_validateFile]
    exact hlt
  · intro r hr
    obtain ⟨q, -, rfl⟩ := List.mem_map.1 hr
    rw [path_validateFile]
  · intro r hr
    obtain ⟨o, -, rfl⟩ := List.mem_map.1 hr
    exact ⟨o.message, rfl, rfl⟩

/-- The flag of a tree says what its reports are. -/
theorem isConsistent_validateDirectory : (v.validateDirectory p).IsConsistent where
  report r hr := by
    rcases List.mem_append.1 hr with hr | hr
    · obtain ⟨q, -, rfl⟩ := List.mem_map.1 hr
      exact isConsistent_validateFile
    · obtain ⟨o, -, rfl⟩ := List.mem_map.1 hr
      exact Report.isConsistent_failed _ _
  allValid := by
    rw [validateDirectory, Batch.allValid_ofReports_iff]
    exact forall₂_congr fun r _ => Report.isValid_iff
  count := Batch.count_add_count _

theorem reports_validateDirectory : (v.validateDirectory p).reports =
    (v.discover p).files.map v.validateFile ++ (v.discover p).obstacles.map Obstacle.report := rfl

/-- **The reports of a tree are about different paths**, those of files and those of obstacles
taken together. -/
theorem pairwise_path_validateDirectory :
    (v.validateDirectory p).reports.Pairwise fun r r' => r.path.steps ≠ r'.path.steps := by
  have hne : ∀ {a b : Path}, a.steps < b.steps → a.steps ≠ b.steps := fun hlt heq =>
    List.lt_irrefl _ (heq ▸ hlt)
  refine List.pairwise_append.2 ⟨List.pairwise_map.2 ?_, List.pairwise_map.2 ?_, ?_⟩
  · refine pairwise_files_discover.imp fun {a b} hlt => ?_
    rw [path_validateFile, path_validateFile]
    exact hne hlt
  · exact (List.pairwise_map.1 (pairwise_discover Discovery.listsPaths_obstacles)).imp hne
  · intro r hr r' hr'
    obtain ⟨q, hq, rfl⟩ := List.mem_map.1 hr
    obtain ⟨o, ho, rfl⟩ := List.mem_map.1 hr'
    rw [path_validateFile]
    exact steps_ne_of_mem_discover hq ho

/-! ## A named directory -/

/-- A survey says of its directory what is so: it is found when it is there, it has a batch when it
is found, and the batch is the one of its walk. -/
structure Tallies (v : View) (s : Survey) : Prop where
  found : s.found = true ↔ v.isDirectory s.path = true
  result : s.result.isSome = true ↔ s.found = true
  batch : ∀ b ∈ s.result, b.IsConsistent ∧ v.ReportsWalk s.path b.reports

theorem name_survey (name : String) : (v.survey name p).name = name := by
  rw [survey]
  split <;> rfl

theorem path_survey (name : String) : (v.survey name p).path = p := by
  rw [survey]
  split <;> rfl

/-- The batch of a named directory is that of its tree. -/
theorem eq_of_mem_result_survey {name : String} {b : Batch} (h : b ∈ (v.survey name p).result) :
    b = v.validateDirectory p := by
  rw [survey] at h
  split at h
  · exact (Option.some.inj h).symm
  · exact absurd h (Option.not_mem_none b)

/-- **What is said about a named directory is so.** -/
theorem tallies_survey (name : String) : v.Tallies (v.survey name p) where
  found := by
    rw [path_survey, survey]
    split
    · next h => exact iff_of_true rfl h
    · next h => exact iff_of_false Bool.false_ne_true h
  result := by
    rw [survey]
    split <;> exact Iff.rfl
  batch b hb := by
    obtain rfl := eq_of_mem_result_survey hb
    rw [path_survey]
    exact ⟨isConsistent_validateDirectory, reportsWalk_validateDirectory⟩

/-- A survey passes unless a report in it is a failure. -/
theorem Tallies.isValid_iff {s : Survey} (h : v.Tallies s) :
    s.isValid = true ↔ ∀ b ∈ s.result, ∀ r ∈ b.reports, r.status ≠ .failure := by
  rw [Survey.isValid]
  split
  · next hnone => simp [hnone]
  · next b hsome =>
    rw [(h.batch b hsome).1.allValid]
    simp [hsome]

/-! ## A run -/

/-- A run passes unless a report in it is a failure. -/
theorem allValid_run_iff_reports {names : List String} : (v.run root names).allValid = true ↔
    ∀ s ∈ (v.run root names).directories, ∀ b ∈ s.result, ∀ r ∈ b.reports,
      r.status ≠ .failure := by
  refine List.all_eq_true.trans (forall₂_congr fun s hs => ?_)
  obtain ⟨name, -, rfl⟩ := List.mem_map.1 hs
  exact (tallies_survey name).isValid_iff

/-- **The reports of a run are consistent at every level.**  There is one survey for each name, in
their order, and it is the one that the name has alone; each says of its directory what is so, down
to the single report, and the run passes unless a report anywhere in it is a failure. -/
theorem run_consistent (v : View) (root : Path) (names : List String) :
    (v.run root names).root = root ∧
    List.Forall₂ (fun name s => s.name = name ∧ s.path = root.join (.ofString name) ∧
        s = v.survey name (root.join (.ofString name)))
      names (v.run root names).directories ∧
    (∀ s ∈ (v.run root names).directories, v.Tallies s) ∧
    ((v.run root names).allValid = true ↔ ∀ s ∈ (v.run root names).directories,
      ∀ b ∈ s.result, ∀ r ∈ b.reports, r.status ≠ .failure) := by
  refine ⟨rfl, ?_, fun s hs => ?_, allValid_run_iff_reports⟩
  · exact List.forall₂_map_right_iff.2 (List.forall₂_same.2 fun name _ =>
      ⟨name_survey name, path_survey name, rfl⟩)
  · obtain ⟨name, -, rfl⟩ := List.mem_map.1 hs
    exact tallies_survey name

end View

end SqlSanity
