import SqlSanity.Proofs.FileSystem.Locking
import SqlSanity.Proofs.Scan.Verdict

/-!
# Proofs/Scan/Locking — a check of directories where more is locked

Whatever is wrong in a directory is still wrong once more is locked, or else a denial is met on the
way to it and is wrong in its place.  So a directory that fails goes on failing for as long as it is
there.  But a directory that cannot be looked up for want of permission passes for one that is not
there, and a check that failed because of it then succeeds.

* `View.exists_offends_lockAt` — where something was wrong, something is still;
* `View.offends_of_lockAt` — what is wrong was wrong before, or a denial is met;
* `View.perform_lockAt_verdict` — the verdict of a check where more is locked.
-/

namespace SqlSanity

namespace View

variable {v : View} {s : List FileName → Bool} {p q : Path} {names : List FileName} {node : Node}

/-- Something in the directory that `p` leads to cannot be listed or read for want of permission. -/
inductive MeetsDenied (v : View) (p : Path) : Prop
  | blocked (h : v.Blocked p)
  | source {names : List FileName} {n : FileName} {node : Node}
      (leads : v.Leads p (names ++ [n]) node) (leaf : v.isLeaf (p.below (names ++ [n])) node = true)
      (named : Path.IsSqlName n.bytes) (read : v.read (p.below (names ++ [n])) = .error .denied)

/-- What cannot be listed or read is wrong. -/
theorem MeetsDenied.exists_offends (h : v.MeetsDenied p) : ∃ q, v.Offends p q := by
  rcases h with (hlist | ⟨hleads, hdir, hlist⟩) | ⟨hleads, hleaf, hnamed, hread⟩
  · exact ⟨_, .start hlist⟩
  · exact ⟨_, .directory hleads hdir hlist⟩
  · exact ⟨_, .source hleads hleaf hnamed (hread ▸ .unreadable _)⟩

/-! ## What is wrong where more is locked -/

/-- A leaf is a leaf still. -/
theorem isLeaf_lockAt {s' : List FileName → Bool} : ∀ {node : Node}, v.isLeaf p node = true →
    (v.lockAt s).isLeaf p (node.lockAt s') = true
  | .file _ _, _ => rfl
  | .link _, h => by
    have hdir : v.isDirectory p = false := by simpa [isLeaf] using h
    have hdir' : (v.lockAt s).isDirectory p = false :=
      Bool.eq_false_iff.2 fun h' => Bool.false_ne_true (hdir.symm.trans (isDirectory_of_lockAt h'))
    rw [Node.lockAt, isLeaf, hdir']
    rfl

/-- What is a leaf was one before, unless the way on from it is denied. -/
theorem isLeaf_of_lockAt {s' : List FileName → Bool}
    (hfind : (v.lockAt s).find p ≠ .error .denied) : ∀ {node : Node},
    (v.lockAt s).isLeaf p (node.lockAt s') = true → v.isLeaf p node = true
  | .file _ _, _ => rfl
  | .link _, h => by
    have hdir' : (v.lockAt s).isDirectory p = false := by simpa [Node.lockAt, isLeaf] using h
    have hdir : v.isDirectory p = false := Bool.eq_false_iff.2 fun hdir =>
      Bool.false_ne_true (hdir'.symm.trans ((isDirectory_lockAt_iff hdir).2 hfind))
    rw [isLeaf, hdir]
    rfl

/-- What is wrong stays wrong when it is restricted. -/
theorem defective_of_restricted {r r' : Except FileError Bytes} (h : Restricted Eq r r')
    (hdefective : Defective r) : Defective r' := by
  cases h with
  | denied => exact .unreadable .denied
  | error e => exact hdefective
  | ok h => exact h ▸ hdefective

/-- **Something is wrong in a directory still, once more is locked.** -/
theorem exists_offends_lockAt (h : v.Offends p q) : ∃ q', (v.lockAt s).Offends p q' := by
  cases h with
  | source hleads hleaf hnamed hdefective =>
    rcases leads_lockAt (s := s) hleads with ⟨front, more, hdenied⟩ | ⟨s', hleads'⟩
    · exact (MeetsDenied.blocked hdenied.blocked).exists_offends
    · exact ⟨_, .source hleads' (isLeaf_lockAt hleaf) hnamed
        (defective_of_restricted (read_lockAt v s _) hdefective)⟩
  | start hlist =>
    obtain ⟨e', hlist'⟩ := exists_list_error (s := s) hlist
    exact ⟨p, .start hlist'⟩
  | directory hleads hdir hlist =>
    rcases leads_lockAt (s := s) hleads with ⟨front, more, hdenied⟩ | ⟨s', hleads'⟩
    · exact (MeetsDenied.blocked hdenied.blocked).exists_offends
    · obtain ⟨e', hlist'⟩ := exists_list_error (s := s) hlist
      exact ⟨_, .directory hleads' (by rwa [Node.isDirectory_lockAt]) hlist'⟩

/-- **What is wrong once more is locked was wrong before, or a denial is met.** -/
theorem offends_of_lockAt (h : (v.lockAt s).Offends p q) :
    (v.lockAt s).MeetsDenied p ∨ v.Offends p q := by
  cases h with
  | @source names n node' hleads' hleaf' hnamed hdefective' =>
    by_cases hread : (v.lockAt s).read (p.below (names ++ [n])) = .error .denied
    · exact .inl (.source hleads' hleaf' hnamed hread)
    · obtain ⟨node, hleads, s', rfl⟩ := leads_of_lockAt hleads'
      have hfind : (v.lockAt s).find (p.below (names ++ [n])) ≠ .error .denied := fun hfind =>
        hread (read_of_find_error hfind)
      have hsame : v.read (p.below (names ++ [n])) = (v.lockAt s).read (p.below (names ++ [n])) :=
        (read_lockAt v s _).eq_of_ne hread
      rw [← hsame] at hdefective'
      exact .inr (.source hleads (isLeaf_of_lockAt hfind hleaf') hnamed hdefective')
  | @start e hlist' =>
    by_cases he : e = .denied
    · exact .inl (.blocked (.start (he ▸ hlist')))
    · exact .inr (.start (list_error_of_lockAt hlist' he))
  | @directory names node' e hleads' hdir' hlist' =>
    by_cases he : e = .denied
    · exact .inl (.blocked (.below hleads' hdir' (he ▸ hlist')))
    · obtain ⟨node, hleads, s', rfl⟩ := leads_of_lockAt hleads'
      rw [Node.isDirectory_lockAt] at hdir'
      exact .inr (.directory hleads hdir' (list_error_of_lockAt hlist' he))

/-- Once more is locked, something is wrong in a directory exactly when something was or a denial is
met. -/
theorem exists_offends_lockAt_iff : (∃ q, (v.lockAt s).Offends p q) ↔
    (∃ q, v.Offends p q) ∨ (v.lockAt s).MeetsDenied p := by
  constructor
  · rintro ⟨q, hq⟩
    rcases offends_of_lockAt hq with h | h
    · exact .inr h
    · exact .inl ⟨q, h⟩
  · rintro (⟨q, hq⟩ | h)
    · exact exists_offends_lockAt hq
    · exact h.exists_offends

end View

/-! ## Commands -/

/-- The directories that a command checks, when it has a root or a path for them. -/
def Invocation.targets? (i : Invocation) : Option (List Path) :=
  match i.command.getD (.scan []) with
  | .scan given =>
    i.root.map fun root => (scannedDirectories given).map fun d => root.join (.ofString d)
  | .directory p => some [i.target p]
  | .file _ => none

namespace View

variable {i : Invocation} {targets : List Path}

/-- **A check of directories fails exactly when one of them is there and something in it is
wrong.** -/
theorem perform_targets (v : View) (hjson : i.json = false) (htargets : i.targets? = some targets) :
    ∃ o, v.perform i = .ok o ∧
      (o.ok = false ↔ ∃ p ∈ targets, v.isDirectory p = true ∧ ∃ q, v.Offends p q) := by
  rw [Invocation.targets?] at htargets
  split at htargets
  · next given hcommand =>
    obtain ⟨root, hroot, rfl⟩ := Option.map_eq_some_iff.1 htargets
    refine ⟨_, perform_scan hcommand hjson (by rw [hroot]; rfl), ?_⟩
    rw [allValid_run_iff]
    constructor
    · rintro ⟨d, hd, hsurvey⟩
      exact ⟨_, List.mem_map_of_mem hd, isValid_survey_iff.1 hsurvey⟩
    · rintro ⟨p, hp, hwrong⟩
      obtain ⟨d, hd, rfl⟩ := List.mem_map.1 hp
      exact ⟨d, hd, isValid_survey_iff.2 hwrong⟩
  · next p hcommand =>
    cases htargets
    have hperform : v.perform i = (v.performDirectory i p).outcome := by rw [perform_eq, hcommand]
    rw [hperform, outcome_performDirectory, hjson]
    refine ⟨_, rfl, ?_⟩
    simp only [isValid_survey_iff, List.mem_singleton, exists_eq_left]
  · cases htargets

/-- **The verdict of a check where more is locked**: it fails exactly when one of its directories
that was there, and can be looked up still, has something wrong in it or meets a denial.  So a check
that failed fails still, unless each directory that made it fail cannot be looked up for want of
permission and no other one meets a denial. -/
theorem perform_lockAt_verdict (v : View) (s : List FileName → Bool) (hjson : i.json = false)
    (htargets : i.targets? = some targets) :
    ∃ o o', v.perform i = .ok o ∧ (v.lockAt s).perform i = .ok o' ∧
      (o.ok = false ↔ ∃ p ∈ targets, v.isDirectory p = true ∧ ∃ q, v.Offends p q) ∧
      (o'.ok = false ↔ ∃ p ∈ targets,
        v.isDirectory p = true ∧ (v.lockAt s).find p ≠ .error .denied ∧
          ((∃ q, v.Offends p q) ∨ (v.lockAt s).MeetsDenied p)) ∧
      ((∀ p ∈ targets, (v.lockAt s).find p ≠ .error .denied) → o.ok = false → o'.ok = false) := by
  obtain ⟨o, ho, hok⟩ := v.perform_targets hjson htargets
  obtain ⟨o', ho', hok'⟩ := (v.lockAt s).perform_targets hjson htargets
  have hverdict : o'.ok = false ↔ ∃ p ∈ targets,
      v.isDirectory p = true ∧ (v.lockAt s).find p ≠ .error .denied ∧
        ((∃ q, v.Offends p q) ∨ (v.lockAt s).MeetsDenied p) := by
    rw [hok']
    constructor
    · rintro ⟨p, hp, hdir', hwrong⟩
      have hdir := isDirectory_of_lockAt hdir'
      exact ⟨p, hp, hdir, (isDirectory_lockAt_iff hdir).1 hdir', exists_offends_lockAt_iff.1 hwrong⟩
    · rintro ⟨p, hp, hdir, hfind, hwrong⟩
      exact ⟨p, hp, (isDirectory_lockAt_iff hdir).2 hfind, exists_offends_lockAt_iff.2 hwrong⟩
  refine ⟨o, o', ho, ho', hok, hverdict, fun hfind hfail => ?_⟩
  obtain ⟨p, hp, hdir, hwrong⟩ := hok.1 hfail
  exact hverdict.2 ⟨p, hp, hdir, hfind p hp, .inl hwrong⟩

/-- The scan of `/r` that fails on the empty file in `/r/src`. -/
def rootScan : Invocation := ⟨false, some ⟨[Path.slash, 0x72]⟩, some (.scan ["src"])⟩

/-- It fails still once `/r/src` is locked, since the directory can be looked up and not listed. -/
theorem perform_lockAt_directory : ∃ o o', emptySource.perform rootScan = .ok o ∧
    (emptySource.lockAt (· == [rootName, srcName])).perform rootScan = .ok o' ∧
      o.ok = false ∧ o'.ok = false := by
  have htargets : rootScan.targets? = some [srcPath] := by rfl
  obtain ⟨o, o', ho, ho', hok, hok', hstays⟩ := perform_lockAt_verdict emptySource
    (· == [rootName, srcName]) (i := rootScan) rfl htargets
  have hfail : o.ok = false :=
    hok.2 ⟨srcPath, List.mem_singleton.2 rfl, by rfl, _, offends_emptySource⟩
  refine ⟨o, o', ho, ho', hfail, hstays (fun p hp => ?_) hfail⟩
  obtain rfl := List.mem_singleton.1 hp
  exact (isDirectory_lockAt_iff (by rfl)).1 (by rfl)

/-- Once `/r` is locked it succeeds: `/r/src` cannot be looked up, and passes for a directory that
is not there. -/
theorem perform_lockAt_parent : ∃ o o', emptySource.perform rootScan = .ok o ∧
    (emptySource.lockAt (· == [rootName])).perform rootScan = .ok o' ∧
      o.ok = false ∧ o'.ok = true :=
  ⟨_, _, perform_scan rfl rfl rfl, perform_scan rfl rfl rfl, by rfl, by rfl⟩

end View

end SqlSanity
