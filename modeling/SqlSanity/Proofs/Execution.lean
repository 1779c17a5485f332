import SqlSanity.Proofs.Except
import SqlSanity.Proofs.Json.Payload
import SqlSanity.Proofs.Scan.Verdict

/-!
# Proofs/Execution — text and JSON agree, and a command that fails prints nothing

Whatever the mode, a command reports one payload, and the verdict is that of the payload.  So the
two modes can only differ in what is printed, and in that a payload with a path that is no text has
no document.  Apart from that a command fails only when it needs a working directory that is gone.
Either way it fails before the first of its steps that prints.

* `View.payload` — what a command reports;
* `View.exists_payload_error_iff` — when there is nothing to report;
* `View.output_of_perform_error` — what is printed when a command fails;
* `View.perform_modes` — when a command fails, and what it comes to in either mode.
-/

namespace SqlSanity

/-- The command looks for its root from the working directory. -/
def Invocation.NeedsWorkingDirectory (i : Invocation) : Prop :=
  (∃ given, i.command.getD (.scan []) = .scan given) ∧ i.root = none

namespace View

variable {v : View} {i : Invocation} {x : Payload} {e : FileError}

/-- What a command reports, unless it has no root to start from. -/
def payload (v : View) (i : Invocation) : Except FileError Payload :=
  match i.command.getD (.scan []) with
  | .scan given =>
    (v.resolveRoot i.root).map fun root => .run (v.run root (scannedDirectories given))
  | .directory p => .ok (.survey (v.survey (i.target p).display (i.target p)))
  | .file p => .ok (.report (v.validateFile (i.target p)))

/-- **A command comes to what it reports**: a document of it in JSON, else some text, and in either
case the verdict is the one of the payload. -/
theorem exists_perform_eq (h : v.payload i = .ok x) : ∃ text, v.perform i =
    if i.json then Outcome.ofDocument x.isValid x.toJson? else .ok ⟨x.isValid, text⟩ := by
  rw [payload] at h
  split at h
  · next given hcommand =>
    obtain ⟨root, hroot, rfl⟩ := Except.map_eq_ok_iff.1 h
    exact ⟨_, perform_scan_eq hcommand hroot⟩
  · next p hcommand =>
    rw [perform_eq, hcommand]
    cases h
    exact ⟨_, outcome_performDirectory v i p⟩
  · next p hcommand =>
    rw [perform_eq, hcommand]
    cases h
    exact ⟨_, outcome_performFile v i p⟩

/-- A command that has nothing to report fails before it prints. -/
theorem perform_of_payload_error (h : v.payload i = .error e) :
    v.perform i = .error ⟨.noWorkingDirectory e, ""⟩ := by
  rw [payload] at h
  split at h
  · next given hcommand =>
    have hroot := Except.map_eq_error_iff.1 h
    rw [perform_eq, hcommand]
    change (v.performScan i given).outcome = _
    rw [performScan, hroot]
    rfl
  · cases h
  · cases h

/-- **Nothing is reported exactly when the working directory is needed and gone.** -/
theorem exists_payload_error_iff : (∃ e, v.payload i = .error e) ↔
    i.NeedsWorkingDirectory ∧ v.cwd.removed = true := by
  have hroot : (∃ e, v.resolveRoot i.root = .error e) ↔ i.root = none ∧ v.cwd.removed = true := by
    cases i.root with
    | some root => simp [resolveRoot]
    | none =>
      cases hgone : v.cwd.removed <;> simp [resolveRoot, currentDirectory, hgone, Except.map]
  rw [payload, Invocation.NeedsWorkingDirectory]
  split
  · next given hcommand => simp [Except.map_eq_error_iff, hroot, hcommand]
  · next p hcommand => simp [hcommand]
  · next p hcommand => simp [hcommand]

/-- The verdict of a command is the one of what it reports. -/
theorem ok_of_perform {o : Outcome} (h : v.payload i = .ok x) (ho : v.perform i = .ok o) :
    o.ok = x.isValid := by
  obtain ⟨text, hperform⟩ := exists_perform_eq h
  rw [hperform] at ho
  split at ho
  · obtain ⟨j, -, rfl⟩ := Outcome.ofDocument_eq_ok_iff.1 ho
    rfl
  · cases ho
    rfl

/-- In JSON a command comes to one document, when all paths in it are text. -/
theorem perform_json (h : v.payload i = .ok x) (hjson : i.json = true)
    (htext : ∀ p ∈ x.paths, p.IsText) : ∃ j, x.toJson? = some j ∧
      v.perform i = .ok ⟨x.isValid, (Json.document x.isValid j).text ++ "\n"⟩ := by
  obtain ⟨text, hperform⟩ := exists_perform_eq h
  obtain ⟨j, hj⟩ := Payload.exists_toJson?_iff.2 htext
  refine ⟨j, hj, ?_⟩
  rw [hperform, if_pos hjson, hj]
  rfl

/-- In JSON a command with something to report fails exactly when a path in it is no text. -/
theorem exists_perform_json_error_iff (h : v.payload i = .ok x) (hjson : i.json = true) :
    (∃ e, v.perform i = .error e) ↔ ∃ p ∈ x.paths, ¬p.IsText := by
  by_cases htext : ∀ p ∈ x.paths, p.IsText
  · obtain ⟨j, -, hperform⟩ := perform_json h hjson htext
    simpa [hperform] using htext
  · obtain ⟨text, hperform⟩ := exists_perform_eq h
    have hnone : x.toJson? = none := Option.eq_none_iff_forall_ne_some.2 fun j hj =>
      htext (Payload.exists_toJson?_iff.1 ⟨j, hj⟩)
    have hfail : v.perform i = .error ⟨.pathNotText, ""⟩ := by
      rw [hperform, if_pos hjson, hnone]
      rfl
    push Not at htext
    simp [hfail, htext]

/-- **When a command fails**: it needs the working directory and that is gone, or it is to print a
document with a path that is no text. -/
theorem exists_perform_error_iff : (∃ e, v.perform i = .error e) ↔
    i.NeedsWorkingDirectory ∧ v.cwd.removed = true ∨
      i.json = true ∧ ∃ x, v.payload i = .ok x ∧ ∃ p ∈ x.paths, ¬p.IsText := by
  rw [← exists_payload_error_iff]
  cases hx : v.payload i with
  | error e => simp [perform_of_payload_error hx]
  | ok x =>
    cases hjson : i.json with
    | true => simp [exists_perform_json_error_iff hx hjson]
    | false =>
      obtain ⟨text, hperform⟩ := exists_perform_eq hx
      simp [hperform, hjson]

/-- **A command that fails has printed nothing by then**: it fails before its first step that
prints. -/
theorem output_of_perform_error {e : Failure} (h : v.perform i = .error e) : e.output = "" := by
  cases hx : v.payload i with
  | error e' =>
    obtain rfl := Except.error.inj ((perform_of_payload_error hx).symm.trans h)
    rfl
  | ok x =>
    obtain ⟨text, hperform⟩ := exists_perform_eq hx
    rw [hperform] at h
    split at h
    · obtain ⟨-, rfl⟩ := Outcome.ofDocument_eq_error_iff.1 h
      rfl
    · cases h

/-- **Text and JSON agree, and a command that fails prints nothing.**  A command fails only for want
of its working directory or, in JSON, for a path that is no text; nothing is printed by then, and
the process ends with code 1 and no output.  Otherwise the verdict is the same in both modes, and in
JSON one document is printed, which has the verdict for its flag and what is reported for its
data. -/
theorem perform_modes (v : View) (i : Invocation) :
    ((∃ e, v.perform i = .error e) ↔
      i.NeedsWorkingDirectory ∧ v.cwd.removed = true ∨
        i.json = true ∧ ∃ x, v.payload i = .ok x ∧ ∃ p ∈ x.paths, ¬p.IsText) ∧
    (∀ words e, Invocation.ofArguments words = .ok i → v.perform i = .error e →
      e.output = "" ∧ v.execute words = ⟨1, "", some e.cause.message⟩) ∧
    (¬(i.NeedsWorkingDirectory ∧ v.cwd.removed = true) →
      ∃ x, v.payload i = .ok x ∧ ((∀ p ∈ x.paths, p.IsText) →
        ∃ o o', v.perform { i with json := true } = .ok o ∧
          v.perform { i with json := false } = .ok o' ∧ o.ok = o'.ok ∧
          ∃ d, Json.IsDocument d o.output ∧ (d.field? "ok").bind Json.flag? = some o.ok ∧
            (d.field? "data").bind Payload.ofJson? = some x)) := by
  refine ⟨exists_perform_error_iff, fun words e hwords hperform => ?_, fun hcwd => ?_⟩
  · have hnothing := output_of_perform_error hperform
    refine ⟨hnothing, ?_⟩
    rw [execute, hwords]
    change Exit.ofOutcome (v.perform i) = _
    rw [hperform, Exit.ofOutcome, hnothing]
  · rw [← exists_payload_error_iff] at hcwd
    cases hx : v.payload i with
    | error e => exact absurd ⟨e, hx⟩ hcwd
    | ok x =>
      refine ⟨x, rfl, fun htext => ?_⟩
      obtain ⟨j, hj, hjson⟩ := perform_json (i := { i with json := true }) hx rfl htext
      obtain ⟨text, hperform⟩ := exists_perform_eq (i := { i with json := false }) hx
      obtain ⟨hok, hdata⟩ := Payload.ofJson?_document x.isValid hj
      refine ⟨_, _, hjson, hperform, rfl, Json.document x.isValid j, ?_, hok, hdata⟩
      exact Json.isDocument_text _ "\n" (by simp [Json.IsLayout, Json.isLayoutChar])

/-- A process in a directory that has been removed. -/
def removedSource : View := { emptySource with cwd := ⟨[rootName, srcName], true⟩ }

/-- Started in a directory that is gone, the process fails.  A root that is no text fails in JSON.
Else the scan that fails as text fails in JSON too, with one document. -/
theorem perform_modes_emptySource :
    removedSource.execute [] = ⟨1, "", some "No such file or directory (os error 2)"⟩ ∧
      (∃ e, emptySource.perform ⟨true, some ⟨[0xff]⟩, none⟩ = .error e) ∧
      ∃ o o', emptySource.perform ⟨true, none, none⟩ = .ok o ∧
        emptySource.perform ⟨false, none, none⟩ = .ok o' ∧ o.ok = false ∧ o'.ok = false ∧
        ∃ d, Json.IsDocument d o.output ∧ (d.field? "ok").bind Json.flag? = some false := by
  refine ⟨?_, ?_, ?_⟩
  · exact ((perform_modes removedSource ⟨false, none, none⟩).2.1 []
      ⟨.noWorkingDirectory .noEntry, ""⟩ rfl rfl).2
  · refine (perform_modes emptySource ⟨true, some ⟨[0xff]⟩, none⟩).1.2 (.inr ⟨rfl, _, rfl, ⟨[0xff]⟩,
      List.mem_cons_self, ?_⟩)
    rw [Path.isText_iff]
    rintro ⟨s, hs⟩
    exact nomatch hs
  · have hcwd : ¬(Invocation.NeedsWorkingDirectory ⟨false, none, none⟩ ∧
        emptySource.cwd.removed = true) := fun h => nomatch h.2
    obtain ⟨x, hx, hmodes⟩ := (perform_modes emptySource ⟨false, none, none⟩).2.2 hcwd
    have hrun : emptySource.payload ⟨false, none, none⟩ =
        .ok (.run (emptySource.run ⟨[Path.slash, 0x72]⟩ defaultDirectories)) := by rfl
    obtain rfl := Except.ok.inj (hrun.symm.trans hx)
    have hpaths : (emptySource.run ⟨[Path.slash, 0x72]⟩ defaultDirectories).paths =
        ["/r", "/r/src", "/r/src/a.sql", "/r/data", "/r/tests"].map Path.ofString := by rfl
    have htext : ∀ p ∈ (emptySource.run ⟨[Path.slash, 0x72]⟩ defaultDirectories).paths,
        p.IsText := by
      intro p hp
      rw [hpaths] at hp
      obtain ⟨s, -, rfl⟩ := List.mem_map.1 hp
      exact ⟨s, rfl⟩
    obtain ⟨o, o', ho, ho', hsame, d, hdocument, hok, -⟩ := hmodes htext
    have hfail : o'.ok = false := by
      have hroot : emptySource.resolveRoot none = .ok ⟨[Path.slash, 0x72]⟩ := by rfl
      obtain rfl := Except.ok.inj (ho'.symm.trans (perform_scan rfl rfl hroot))
      rfl
    rw [hsame, hfail] at hok
    exact ⟨o, o', ho, ho', hsame.trans hfail, hfail, d, hdocument, hok⟩

end View

end SqlSanity
