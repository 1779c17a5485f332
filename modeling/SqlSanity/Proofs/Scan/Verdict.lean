import SqlSanity.Execution
import SqlSanity.Proofs.Discovery
import SqlSanity.Proofs.Source
import SqlSanity.Proofs.Text.Line

/-!
# Proofs/Scan/Verdict — a scan fails exactly when something in a named directory is wrong

Two things are wrong in a directory: a file named as an SQL file that is defective, and a directory
that cannot be listed, the named one included.  `View.Offends` says where they are, by listing and
reading alone.  Each of them has a failure report under its path in the batch of the directory, and
no other report is a failure; so the verdict of the batch, of the run and of the last line printed
all say whether there is one.

* `View.exists_failure_iff` — the failures among the reports of a directory;
* `View.isValid_survey_iff` — what the survey of a name says;
* `lastLine?_render` — the last line of a run;
* `View.perform_scan_verdict` — the verdict of a scan.
-/

namespace SqlSanity

namespace View

variable {v : View} {p q root : Path} {node child : Node} {names : List FileName} {e : FileError}

/-- Something is wrong at `q`, in the directory that `p` leads to: a file with the name of an SQL
file is defective, or a directory cannot be listed. -/
inductive Offends (v : View) (p : Path) : Path → Prop
  | source {names : List FileName} {n : FileName} {node : Node}
      (leads : v.Leads p (names ++ [n]) node) (leaf : v.isLeaf (p.below (names ++ [n])) node = true)
      (named : Path.IsSqlName n.bytes)
      (defective : Defective (v.read (p.below (names ++ [n])))) :
      Offends v p (p.below (names ++ [n]))
  | start {e : FileError} (list : v.list p = .error e) : Offends v p p
  | directory {names : List FileName} {node : Node} {e : FileError}
      (leads : v.Leads p names node) (real : node.isDirectory = true)
      (list : v.list (p.below names) = .error e) : Offends v p (p.below names)

/-! ## A directory -/

/-- **What is wrong in a directory has a failure report under its path, and nothing else has.** -/
theorem exists_failure_iff (h : v.isDirectory p = true) :
    (∃ r ∈ (v.validateDirectory p).reports, r.path = q ∧ r.status = .failure) ↔ v.Offends p q := by
  obtain ⟨node, hfind, hdir⟩ := isDirectory_iff.1 h
  change (∃ r ∈ (v.discover p).files.map v.validateFile
    ++ (v.discover p).obstacles.map Obstacle.report, r.path = q ∧ r.status = .failure) ↔ _
  constructor
  · rintro ⟨r, hr, rfl, hfail⟩
    rcases List.mem_append.1 hr with hr | hr
    · obtain ⟨f, hf, rfl⟩ := List.mem_map.1 hr
      obtain ⟨names, n, child, hleads, hleaf, hsql, rfl⟩ := (mem_files_discover hfind hdir).1 hf
      rw [path_validateFile]
      exact .source hleads hleaf hsql (status_validateFile_iff.1 hfail)
    · obtain ⟨o, ho, rfl⟩ := List.mem_map.1 hr
      obtain ⟨hlist, hpath | ⟨names, child, hleads, hsub, hpath⟩⟩ :=
        (mem_obstacles_discover hfind hdir).1 ho
      · change v.Offends p o.path
        rw [hpath] at hlist ⊢
        exact .start hlist
      · change v.Offends p o.path
        rw [hpath] at hlist ⊢
        exact .directory hleads hsub hlist
  · rintro (⟨hleads, hleaf, hsql, hdefective⟩ | hlist | ⟨hleads, hsub, hlist⟩)
    · refine ⟨_, List.mem_append_left _ (List.mem_map_of_mem
        ((mem_files_discover hfind hdir).2 ⟨_, _, _, hleads, hleaf, hsql, rfl⟩)), ?_⟩
      exact ⟨path_validateFile, status_validateFile_iff.2 hdefective⟩
    · exact ⟨_, List.mem_append_right _ (List.mem_map_of_mem
        ((mem_obstacles_discover (o := ⟨_, _⟩) hfind hdir).2 ⟨hlist, .inl rfl⟩)), rfl, rfl⟩
    · exact ⟨_, List.mem_append_right _ (List.mem_map_of_mem
        ((mem_obstacles_discover (o := ⟨_, _⟩) hfind hdir).2
          ⟨hlist, .inr ⟨_, _, hleads, hsub, rfl⟩⟩)), rfl, rfl⟩

/-- The batch of a directory passes exactly when nothing in it is wrong. -/
theorem allValid_validateDirectory_iff (h : v.isDirectory p = true) :
    (v.validateDirectory p).allValid = false ↔ ∃ q, v.Offends p q := by
  have hbatch : (v.validateDirectory p).allValid = false ↔
      ∃ r ∈ (v.validateDirectory p).reports, r.status = .failure := by
    rw [validateDirectory, Batch.ofReports, List.all_eq_false]
    simp [Report.isValid]
  rw [hbatch]
  constructor
  · rintro ⟨r, hr, hfail⟩
    exact ⟨r.path, (exists_failure_iff h).1 ⟨r, hr, rfl, hfail⟩⟩
  · rintro ⟨q, hq⟩
    obtain ⟨r, hr, -, hfail⟩ := (exists_failure_iff h).2 hq
    exact ⟨r, hr, hfail⟩

/-- **A survey fails exactly when its directory is there and something in it is wrong.** -/
theorem isValid_survey_iff {name : String} : (v.survey name p).isValid = false ↔
    v.isDirectory p = true ∧ ∃ q, v.Offends p q := by
  rw [survey]
  split
  · next h =>
    rw [and_iff_right h]
    exact allValid_validateDirectory_iff h
  · next h => exact iff_of_false (fun h' => nomatch h') fun h' => h h'.1

/-! ## A run -/

/-- A run fails exactly when the survey of one of its names does. -/
theorem allValid_run_iff {ds : List String} : (v.run root ds).allValid = false ↔
    ∃ d ∈ ds, (v.survey d (root.join (.ofString d))).isValid = false := by
  change ((ds.map fun d => v.survey d (root.join (.ofString d))).all Survey.isValid) = false ↔ _
  rw [List.all_map, List.all_eq_false]
  simp

/-- What is wrong in a named directory has its failure report in the run. -/
theorem exists_failure_run {ds : List String} {d : String} (hd : d ∈ ds)
    (hdir : v.isDirectory (root.join (.ofString d)) = true)
    (hq : v.Offends (root.join (.ofString d)) q) :
    ∃ s ∈ (v.run root ds).directories, s.name = d ∧
      ∃ batch ∈ s.result, ∃ r ∈ batch.reports, r.path = q ∧ r.status = .failure := by
  refine ⟨v.survey d (root.join (.ofString d)), List.mem_map_of_mem hd, ?_⟩
  rw [survey, if_pos hdir]
  exact ⟨rfl, _, rfl, (exists_failure_iff hdir).2 hq⟩

end View

/-! ## The last line -/

/-- The last line of a text that ends in a line feed. -/
def lastLine? (s : String) : Option Text := (Text.lines s.toList).dropLast.getLast?

/-- The last line is what stands between the last two line feeds. -/
theorem lastLine?_append {before line : String} (h : '\n' ∉ line.toList) :
    lastLine? (before ++ "\n" ++ (line ++ "\n")) = some line.toList := by
  have hlf : "\n".toList = ['\n'] := rfl
  rw [lastLine?, String.toList_append, String.toList_append, String.toList_append, hlf,
    List.append_assoc, List.singleton_append, Text.lines_append_lf, Text.lines_append_lf,
    Text.lines_of_not_mem h, ← List.append_assoc, Text.lines, List.dropLast_concat,
    List.getLast?_concat]

/-- The last line of a run, in words. -/
def verdictLine (allValid : Bool) : String :=
  if allValid then "[SUCCESS] All files validated successfully!"
  else "[FAILURE] Some files contain errors."

theorem lf_not_mem_verdictLine (b : Bool) : '\n' ∉ (verdictLine b).toList := by
  cases b <;> simp [verdictLine]

theorem verdict_eq (b : Bool) :
    verdict b = "\n" ++ rule '=' ++ "\n" ++ (verdictLine b ++ "\n") := by
  cases b <;> simp [verdict, verdictLine, Status.tag]

/-- **The last line of a run is its verdict.** -/
theorem lastLine?_render (r : Run) :
    lastLine? r.render = some (verdictLine r.allValid).toList := by
  have hrender : r.render = (banner ++ String.join (r.directories.map Survey.render) ++ "\n"
      ++ rule '=') ++ "\n" ++ (verdictLine r.allValid ++ "\n") := by
    rw [Run.render, verdict_eq]
    simp only [String.append_assoc]
  rw [hrender, lastLine?_append (lf_not_mem_verdictLine _)]

/-- The last line tells a failure from a success. -/
theorem verdictLine_eq_iff {b : Bool} :
    (verdictLine b).toList = "[FAILURE] Some files contain errors.".toList ↔ b = false := by
  cases b <;> simp [verdictLine]

/-! ## A scan -/

/-- The directories that a scan checks when these are given. -/
def scannedDirectories (given : List String) : List String :=
  if given.isEmpty then defaultDirectories else given

namespace View

open Printing

variable {v : View} {i : Invocation} {given : List String} {root : Path}

/-- A command line without a command calls for a scan of the default directories. -/
theorem perform_eq (v : View) (i : Invocation) : v.perform i =
    match i.command.getD (.scan []) with
    | .scan names => (v.performScan i names).outcome
    | .directory p => (v.performDirectory i p).outcome
    | .file p => (v.performFile i p).outcome := by
  rw [perform]
  rcases i.command with _ | ⟨names⟩ | ⟨p⟩ | ⟨p⟩ <;> rfl

/-- A scan that has its root runs, and then has a run to conclude with. -/
theorem performScan_of_root (given : List String) (hroot : v.resolveRoot i.root = .ok root) :
    v.performScan i given = conclude i.json (v.run root (scannedDirectories given)).allValid
      (v.run root (scannedDirectories given)).toJson?
      (print (v.run root (scannedDirectories given)).render) := by
  rw [performScan, hroot]
  rfl

/-- A scan comes to its run, as a document or as text. -/
theorem perform_scan_eq (hcommand : i.command.getD (.scan []) = .scan given)
    (hroot : v.resolveRoot i.root = .ok root) : v.perform i =
      if i.json then Outcome.ofDocument (v.run root (scannedDirectories given)).allValid
        (v.run root (scannedDirectories given)).toJson?
      else .ok ⟨(v.run root (scannedDirectories given)).allValid,
        (v.run root (scannedDirectories given)).render⟩ := by
  rw [perform_eq, hcommand]
  change (v.performScan i given).outcome = _
  rw [performScan_of_root given hroot]
  refine outcome_conclude ?_ _ _ _
  rw [run_print, String.empty_append]

/-- A scan as text prints its run and has the verdict of the run. -/
theorem perform_scan (hcommand : i.command.getD (.scan []) = .scan given) (hjson : i.json = false)
    (hroot : v.resolveRoot i.root = .ok root) : v.perform i =
      .ok ⟨(v.run root (scannedDirectories given)).allValid,
        (v.run root (scannedDirectories given)).render⟩ := by
  rw [perform_scan_eq hcommand hroot, hjson]
  rfl

/-- **A scan fails exactly when one of its directories is there and something in it is wrong.**
Everything that is wrong has a failure report in the run, and the last line printed is the
verdict. -/
theorem perform_scan_verdict (hcommand : i.command.getD (.scan []) = .scan given)
    (hjson : i.json = false) (hroot : v.resolveRoot i.root = .ok root) :
    ∃ o, v.perform i = .ok o ∧
      (o.ok = false ↔ ∃ d ∈ scannedDirectories given,
        v.isDirectory (root.join (.ofString d)) = true ∧
          ∃ q, v.Offends (root.join (.ofString d)) q) ∧
      (∀ d ∈ scannedDirectories given, v.isDirectory (root.join (.ofString d)) = true →
        ∀ q, v.Offends (root.join (.ofString d)) q →
          ∃ s ∈ (v.run root (scannedDirectories given)).directories, s.name = d ∧
            ∃ batch ∈ s.result, ∃ r ∈ batch.reports, r.path = q ∧ r.status = .failure) ∧
      o.output = (v.run root (scannedDirectories given)).render ∧
      (lastLine? o.output = some "[FAILURE] Some files contain errors.".toList ↔ o.ok = false) := by
  refine ⟨_, perform_scan hcommand hjson hroot, ?_, ?_, rfl, ?_⟩
  · rw [allValid_run_iff]
    simp only [isValid_survey_iff]
  · intro d hd hdir q hq
    exact exists_failure_run hd hdir hq
  · rw [lastLine?_render, Option.some.injEq, verdictLine_eq_iff]

/-- The name `r`. -/
def rootName : FileName := ⟨[0x72], by decide⟩

/-- The name `src`. -/
def srcName : FileName := ⟨[0x73, 0x72, 0x63], by decide⟩

/-- The name `a.sql`. -/
def sqlName : FileName := ⟨[0x61, 0x2e, 0x73, 0x71, 0x6c], by decide⟩

/-- A process in the directory `/r/src`, which holds an empty file `a.sql`, and there is nothing
else. -/
def emptySource : View where
  files :=
    ⟨.directory false [(rootName, .directory false [(srcName, .directory false
      [(sqlName, .file false [])])])], .single (.single (.single (.file false [])))⟩
  cwd := ⟨[rootName, srcName], false⟩

/-- The path `/r/src`. -/
def srcPath : Path := ⟨[Path.slash, 0x72, Path.slash, 0x73, 0x72, 0x63]⟩

/-- An empty file is wrong in `/r/src`. -/
theorem offends_emptySource : emptySource.Offends srcPath (srcPath.below [sqlName]) := by
  have hlist : emptySource.list srcPath = .ok [(sqlName, .file false [])] := by rfl
  have hread : emptySource.read (srcPath.below [sqlName]) = .ok (Utf8.encode []) := by rfl
  have hdefective : Defective (emptySource.read (srcPath.below [sqlName])) := by
    rw [hread]
    exact .blank nofun
  exact @Offends.source _ _ [] sqlName _ (.entry hlist (List.mem_singleton.2 rfl)) rfl
    ⟨[0x61], List.cons_ne_nil _ _, rfl⟩ hdefective

/-- The scan of the default directories, started below a root that is not given, fails on the empty
file. -/
theorem perform_scan_emptySource :
    ∃ o, emptySource.perform ⟨false, none, none⟩ = .ok o ∧ o.ok = false ∧
      lastLine? o.output = some "[FAILURE] Some files contain errors.".toList := by
  have hroot : emptySource.resolveRoot none = .ok ⟨[Path.slash, 0x72]⟩ := by rfl
  obtain ⟨o, ho, hok, -, -, hlast⟩ :=
    perform_scan_verdict (v := emptySource) (i := ⟨false, none, none⟩) rfl rfl hroot
  have hfail : o.ok = false :=
    hok.2 ⟨"src", List.mem_cons_self, by rfl, _, offends_emptySource⟩
  exact ⟨o, ho, hfail, hlast.2 hfail⟩

end View

end SqlSanity
