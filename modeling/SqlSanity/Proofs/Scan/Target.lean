import SqlSanity.Proofs.Scan.Reports
import SqlSanity.Proofs.Scan.Root

/-!
# Proofs/Scan/Target — the three commands agree on one target

A directory can be checked by itself or as the one name of a scan.  Both look at the same path from
the root and come to the same survey but for the name that it goes by: a scan keeps the name that it
was given, and the check of a directory goes by its whole path.  So the verdict is the same, and
what is printed differs in that name only; a path from the root of the file system is its own name,
and there nothing differs.

A file can be checked by itself or with its directory, and is reported on in the same way.

* `View.survey_name` — a survey does not depend on its name;
* `View.perform_directory_eq_scan` — a directory by its absolute path;
* `View.filter_path_validateDirectory` — a file has one report among those of its directory;
* `View.perform_target` — the three commands on one target.
-/

namespace SqlSanity

/-- A path that is spelled by a string is displayed as the string. -/
theorem Path.display_ofString (s : String) : (Path.ofString s).display = s := by
  have hdecode : Utf8.decode (ofString s).bytes = .ok s.toList :=
    Utf8.decode_eq_ok_iff_encode.2 rfl
  rw [display, Utf8.lossy_of_decode hdecode, String.ofList_toList]

namespace View

variable {v : View} {p q r r' : Path} {s : String} {rep : Report}

/-! ## A directory -/

/-- The name that a survey goes by changes nothing else in it. -/
theorem survey_name (v : View) (name name' : String) (p : Path) :
    v.survey name p = ⟨name, (v.survey name' p).path, (v.survey name' p).found,
      (v.survey name' p).result⟩ := by
  rw [survey, survey]
  split <;> rfl

/-- The run of a single name. -/
theorem run_singleton (v : View) (r : Path) (s : String) :
    v.run r [s] = ⟨r, [v.survey s (r.join (.ofString s))],
      (v.survey s (r.join (.ofString s))).isValid⟩ := by
  rw [run, Run.ofSurveys, List.map_singleton, List.all_cons, List.all_nil, Bool.and_true]

/-- What the check of a directory comes to as text. -/
theorem perform_directory (v : View) (r p : Path) :
    v.perform ⟨false, some r, some (.directory p)⟩ =
      let survey := v.survey (r.join p).display (r.join p)
      .ok ⟨survey.isValid, banner ++ survey.render ++ verdict survey.isValid⟩ := by
  rw [← Invocation.target_of_root (i := ⟨false, some r, some (.directory p)⟩) rfl p]
  exact outcome_performDirectory v ⟨false, some r, some (.directory p)⟩ p

/-- What the scan of one name comes to as text. -/
theorem perform_scan_singleton (v : View) (r : Path) (s : String) :
    v.perform ⟨false, some r, some (.scan [s])⟩ =
      let survey := v.survey s (r.join (.ofString s))
      .ok ⟨survey.isValid, banner ++ survey.render ++ verdict survey.isValid⟩ := by
  have hcommand : (some (Command.scan [s])).getD (.scan []) = .scan [s] := rfl
  have hroot : v.resolveRoot (some r) = .ok r := rfl
  rw [perform_scan hcommand rfl hroot, scannedDirectories, List.isEmpty_cons,
    if_neg Bool.false_ne_true, run_singleton]
  simp [Run.render, String.join]

/-- **A directory by its absolute path is checked as a scan of it checks it**, whatever the root of
either. -/
theorem perform_directory_eq_scan (v : View) (r r' : Path)
    (h : (Path.ofString s).isAbsolute = true) :
    v.perform ⟨false, some r, some (.directory (.ofString s))⟩ =
      v.perform ⟨false, some r', some (.scan [s])⟩ := by
  rw [perform_directory, perform_scan_singleton, Path.join_of_isAbsolute h,
    Path.join_of_isAbsolute h, Path.display_ofString]

/-! ## A file -/

/-- Among reports about different paths, a path has one report. -/
theorem filter_path_eq {reports : List Report}
    (h : reports.Pairwise fun a b => a.path.steps ≠ b.path.steps) (hrep : rep ∈ reports) :
    reports.filter (fun a => a.path = rep.path) = [rep] := by
  obtain ⟨before, after, rfl⟩ := List.append_of_mem hrep
  obtain ⟨-, hafter, hbefore⟩ := List.pairwise_append.1 h
  have hother : ∀ a : Report, a.path.steps ≠ rep.path.steps → ¬decide (a.path = rep.path) = true :=
    fun a hne heq => hne (congrArg Path.steps (of_decide_eq_true heq))
  have hself : decide (rep.path = rep.path) = true := decide_eq_true rfl
  have hbefore : before.filter (fun a => a.path = rep.path) = [] :=
    List.filter_eq_nil_iff.2 fun a ha => hother a (hbefore a ha rep List.mem_cons_self)
  have hafter : after.filter (fun a => a.path = rep.path) = [] :=
    List.filter_eq_nil_iff.2 fun a ha => hother a ((List.pairwise_cons.1 hafter).1 a ha).symm
  rw [List.filter_append, hbefore, List.filter_cons, if_pos hself, hafter, List.nil_append]

/-- **A file that a walk collects has one report among those of the tree**, the one that it has
alone. -/
theorem filter_path_validateDirectory (hq : q ∈ (v.discover p).files) :
    (v.validateDirectory p).reports.filter (fun a => a.path = q) = [v.validateFile q] := by
  have hrep : v.validateFile q ∈ (v.validateDirectory p).reports :=
    List.mem_append_left _ (List.mem_map_of_mem hq)
  have hfilter := filter_path_eq pairwise_path_validateDirectory hrep
  rw [path_validateFile] at hfilter
  exact hfilter

/-! ## The three commands -/

/-- What the check of a directory reports. -/
theorem payload_directory (json : Bool) (v : View) (r p : Path) :
    v.payload ⟨json, some r, some (.directory p)⟩ =
      .ok (.survey (v.survey (r.join p).display (r.join p))) := by
  rw [← Invocation.target_of_root (i := ⟨json, some r, some (.directory p)⟩) rfl p]
  rfl

/-- What the scan of one name reports. -/
theorem payload_scan_singleton (json : Bool) (v : View) (r : Path) (s : String) :
    v.payload ⟨json, some r, some (.scan [s])⟩ = .ok (.run (v.run r [s])) := rfl

/-- The check of a directory prints a document when its path is text, and the scan of it needs the
root to be text too. -/
theorem exists_scan_error_iff (v : View) (r : Path) (s : String) :
    (∃ e, v.perform ⟨true, some r, some (.scan [s])⟩ = .error e) ↔
      ¬r.IsText ∨ ∃ e, v.perform ⟨true, some r, some (.directory (.ofString s))⟩ = .error e := by
  have hpaths : (v.run r [s]).paths = r :: (v.survey s (r.join (.ofString s))).paths := by
    rw [run_singleton, Run.paths, List.flatMap_singleton]
  rw [exists_perform_json_error_iff (payload_scan_singleton true v r s) rfl,
    exists_perform_json_error_iff (payload_directory true v r (.ofString s)) rfl, Payload.paths,
    Payload.paths, hpaths, survey_name v _ (r.join (.ofString s)).display]
  exact List.exists_mem_cons_iff _ _ _

/-- **The three commands agree on one target.**  Given one root and one path, the check of a
directory and the scan of it look at the same path, find it or not, and come to the same result and
verdict, in text always and in JSON when both print; the scan fails to print when the check does,
and also when the root is no text.  On an absolute path the two print the same text whatever their
roots are.  And a directory always comes to its batch, whatever it is named by; of a file that the
walk of it collects, the check of the file alone comes to the one report that the batch has for
it. -/
theorem perform_target (v : View) (r : Path) (s : String) :
    (∃ dir scanned run, (∀ json,
        v.payload ⟨json, some r, some (.directory (.ofString s))⟩ = .ok (.survey dir) ∧
          v.payload ⟨json, some r, some (.scan [s])⟩ = .ok (.run run)) ∧
      run.directories = [scanned] ∧
      dir.path = r.join (.ofString s) ∧ scanned.path = r.join (.ofString s) ∧
      dir.found = scanned.found ∧ dir.result = scanned.result) ∧
    (∃ o o', v.perform ⟨false, some r, some (.directory (.ofString s))⟩ = .ok o ∧
      v.perform ⟨false, some r, some (.scan [s])⟩ = .ok o' ∧ o.ok = o'.ok) ∧
    ((∃ e, v.perform ⟨true, some r, some (.scan [s])⟩ = .error e) ↔
      ¬r.IsText ∨ ∃ e, v.perform ⟨true, some r, some (.directory (.ofString s))⟩ = .error e) ∧
    (∀ o o', v.perform ⟨true, some r, some (.directory (.ofString s))⟩ = .ok o →
      v.perform ⟨true, some r, some (.scan [s])⟩ = .ok o' → o.ok = o'.ok) ∧
    ((Path.ofString s).isAbsolute = true → ∀ r',
      v.perform ⟨false, some r, some (.directory (.ofString s))⟩ =
        v.perform ⟨false, some r', some (.scan [s])⟩) ∧
    (∀ d, v.isDirectory d = true →
      (∀ name, (v.survey name d).result = some (v.validateDirectory d)) ∧
      ∀ q ∈ (v.discover d).files,
        ∃ rep, (v.validateDirectory d).reports.filter (fun a => a.path = q) = [rep] ∧
          (∀ json, v.payload ⟨json, none, some (.file q)⟩ = .ok (.report rep)) ∧
          v.perform ⟨false, none, some (.file q)⟩ = .ok ⟨rep.isValid, rep.render ++ "\n"⟩) := by
  have hvalid : (v.survey s (r.join (.ofString s))).isValid =
      (v.survey (r.join (.ofString s)).display (r.join (.ofString s))).isValid := by
    rw [survey_name v s (r.join (.ofString s)).display]
    rfl
  refine ⟨?_, ?_, exists_scan_error_iff v r s, fun o o' ho ho' => ?_,
    fun h r' => perform_directory_eq_scan v r r' h, fun d hd => ⟨fun name => ?_, fun q hq => ?_⟩⟩
  · refine ⟨_, _, _, fun json => ⟨payload_directory json v r _, payload_scan_singleton json v r s⟩,
      by rw [run_singleton], path_survey _, path_survey _, ?_⟩
    rw [survey_name v s (r.join (.ofString s)).display]
    exact ⟨rfl, rfl⟩
  · exact ⟨_, _, perform_directory v r _, perform_scan_singleton v r s, hvalid.symm⟩
  · rw [ok_of_perform (payload_directory true v r _) ho,
      ok_of_perform (payload_scan_singleton true v r s) ho', Payload.isValid, Payload.isValid,
      run_singleton, hvalid]
  · rw [survey, if_pos hd]
  · exact ⟨_, filter_path_validateDirectory hq, fun json => rfl,
      outcome_performFile v ⟨false, none, some (.file q)⟩ q⟩

/-- The check of `/r/src` under one root prints what the scan of it under another does, and the file
there has the report that the directory has for it. -/
theorem perform_target_emptySource :
    emptySource.perform ⟨false, some ⟨[Path.slash]⟩, some (.directory (.ofString "/r/src"))⟩ =
      emptySource.perform ⟨false, some ⟨[Path.slash, 0x72]⟩, some (.scan ["/r/src"])⟩ ∧
    ∃ rep, (emptySource.validateDirectory srcPath).reports.filter
        (fun a => a.path = srcPath.below [sqlName]) = [rep] ∧
      emptySource.perform ⟨false, none, some (.file (srcPath.below [sqlName]))⟩ =
        .ok ⟨rep.isValid, rep.render ++ "\n"⟩ := by
  obtain ⟨-, -, -, -, hsame, hfile⟩ := perform_target emptySource ⟨[Path.slash]⟩ "/r/src"
  have hfiles : (emptySource.discover srcPath).files = [srcPath.below [sqlName]] := by rfl
  obtain ⟨-, hreports⟩ := hfile srcPath (by rfl)
  obtain ⟨rep, hrep, -, hperform⟩ := hreports _ (hfiles ▸ List.mem_singleton_self _)
  exact ⟨hsame (by rfl) _, rep, hrep, hperform⟩

end View

end SqlSanity
