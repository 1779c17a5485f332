import SqlSanity.Proofs.Execution
import SqlSanity.Proofs.FileSystem.Standpoint
import SqlSanity.Proofs.Path.Ancestors
import SqlSanity.Proofs.Path.Parent

/-!
# Proofs/Scan/Root — the root of a scan, and where below it the scan is started

The root that a start lies under is the first path in the chain of the start that has sources, and
the start itself when none has.  So it lies under itself, and a start without sources lies under
the root of its parent.

The root that a working directory lies under is a directory above it, or the working directory
itself.  It is an absolute path, and so the run of a scan under it is the same from everywhere.

* `View.detectRoot_nearest` — the root is the nearest path with sources;
* `View.exists_place_of_detectRoot` — the root is a place above the working directory;
* `View.perform_scan_below_root` — scans from below a root, from the root, and of the root.
-/

namespace SqlSanity

namespace View

variable {v w : View} {i : Invocation} {c root : Path} {place : List FileName}
  {given : List String}

/-! ## The root of a start -/

variable {start parent m : Path}

/-- **The root is the first path in the chain that has sources**, or the start when none has. -/
theorem detectRoot_cases (v : View) (start : Path) :
    (∃ before after, start.ancestors = before ++ v.detectRoot start :: after ∧
        v.hasSource (v.detectRoot start) = true ∧ ∀ m ∈ before, v.hasSource m = false) ∨
      v.detectRoot start = start ∧ ∀ m ∈ start.ancestors, v.hasSource m = false := by
  rw [detectRoot]
  cases h : start.ancestors.find? v.hasSource with
  | none => exact .inr ⟨rfl, fun m hm => Bool.eq_false_iff.2 (List.find?_eq_none.1 h m hm)⟩
  | some root =>
    obtain ⟨hroot, before, after, hchain, hbefore⟩ := List.find?_eq_some_iff_append.1 h
    exact .inl ⟨before, after, hchain, hroot, fun m hm => by simpa using hbefore m hm⟩

/-- The root is in the chain. -/
theorem detectRoot_mem_ancestors (v : View) (start : Path) :
    v.detectRoot start ∈ start.ancestors := by
  rcases detectRoot_cases v start with ⟨before, after, hchain, -, -⟩ | ⟨hroot, -⟩
  · rw [hchain]
    exact List.mem_append_right before List.mem_cons_self
  · rw [hroot]
    exact start.mem_ancestors_self

/-- A start with sources is its own root. -/
theorem detectRoot_of_hasSource (h : v.hasSource start = true) : v.detectRoot start = start := by
  rw [detectRoot, Path.ancestors, List.find?_cons_of_pos h, Option.getD_some]

/-- **A root lies under itself.** -/
theorem detectRoot_detectRoot (v : View) (start : Path) :
    v.detectRoot (v.detectRoot start) = v.detectRoot start := by
  rcases detectRoot_cases v start with ⟨-, -, -, hsource, -⟩ | ⟨hroot, -⟩
  · exact detectRoot_of_hasSource hsource
  · rw [hroot, hroot]

/-- A start without sources lies under the root of its parent, when sources are above it. -/
theorem detectRoot_of_isParent (hparent : parent.IsParent start)
    (hstart : v.hasSource start = false) (hm : m ∈ parent.ancestors)
    (hsource : v.hasSource m = true) : v.detectRoot start = v.detectRoot parent := by
  have hfind : (parent.ancestors.find? v.hasSource).isSome = true :=
    List.find?_isSome.2 ⟨m, hm, hsource⟩
  obtain ⟨root, hroot⟩ := Option.isSome_iff_exists.1 hfind
  rw [detectRoot, detectRoot, Path.ancestors, hparent.properAncestors_eq,
    List.find?_cons_of_neg (by simp [hstart]), hroot, Option.getD_some, Option.getD_some]

/-- **The root that a start lies under is the nearest path with sources.**  It is in the chain that
goes from the start to its parent, and so on; it is the first in the chain that has a directory
`src`, and the start when none has.  So it lies under itself, and a start without such a directory
lies under the root of its parent, when there is one above it. -/
theorem detectRoot_nearest (v : View) (start : Path) :
    (∀ chain, start.Lineage chain ↔ chain = start.ancestors) ∧
    v.detectRoot start ∈ start.ancestors ∧
    ((∃ before after, start.ancestors = before ++ v.detectRoot start :: after ∧
        v.isDirectory ((v.detectRoot start).join (.ofString "src")) = true ∧
          ∀ m ∈ before, v.isDirectory (m.join (.ofString "src")) = false) ∨
      v.detectRoot start = start ∧
        ∀ m ∈ start.ancestors, v.isDirectory (m.join (.ofString "src")) = false) ∧
    v.detectRoot (v.detectRoot start) = v.detectRoot start ∧
    (v.isDirectory (start.join (.ofString "src")) = false →
      (∃ m ∈ start.ancestors.tail, v.isDirectory (m.join (.ofString "src")) = true) →
        ∃ parent : Path, parent.IsParent start ∧ v.detectRoot start = v.detectRoot parent) := by
  refine ⟨fun chain => Path.lineage_iff, detectRoot_mem_ancestors v start, detectRoot_cases v start,
    detectRoot_detectRoot v start, ?_⟩
  rintro hstart ⟨m, hm, hsource⟩
  obtain ⟨parent, hparent, hm'⟩ := Path.exists_parent_of_mem hm
  exact ⟨parent, hparent, detectRoot_of_isParent hparent hstart hm' hsource⟩

/-- Seen from `/r`, the chain of a path that leads nowhere ends in the empty path, which has
sources: what counts is how the path is spelled. -/
example : ({ emptySource with cwd := ⟨[rootName], false⟩ } : View).detectRoot
    (.ofString "src/gone/.//") = .ofString "" := by decide

/-! ## The root of a place -/

/-- **The root that a place lies under is a place above it**, or the place itself. -/
theorem exists_place_of_detectRoot (v : View) (place : List FileName) :
    ∃ above, above <+: place ∧ v.detectRoot (pathOf place) = pathOf above :=
  mem_ancestors_pathOf.1 (detectRoot_mem_ancestors v (pathOf place))

/-- The root that a place lies under is the same from everywhere. -/
theorem detectRoot_pathOf (hfiles : w.files = v.files) (place : List FileName) :
    w.detectRoot (pathOf place) = v.detectRoot (pathOf place) := by
  have hfind : (pathOf place).ancestors.find? w.hasSource =
      (pathOf place).ancestors.find? v.hasSource := by
    rw [ancestors_pathOf, List.find?_map, List.find?_map]
    congr 2
    funext back
    exact hasSource_of_isAbsolute hfiles (isAbsolute_pathOf _)
  rw [detectRoot, detectRoot, hfind]

/-- The working directory, as the path of its place. -/
theorem currentDirectory_eq_ok_iff :
    v.currentDirectory = .ok c ↔ v.cwd.removed = false ∧ pathOf v.cwd.place = c := by
  rw [currentDirectory]
  cases v.cwd.removed <;> simp

/-! ## Scans from below a root -/

/-- What is on the way down to a place that is there is there too. -/
theorem isSome_extend_of_append {r : Node} : ∀ {above rest : List FileName} {t : Trail},
    (Trail.extend r t (above ++ rest)).isSome = true → (Trail.extend r t above).isSome = true
  | [], _, _, _ => rfl
  | n :: above, rest, t, h => by
    rw [List.cons_append, Trail.extend] at h
    rw [Trail.extend]
    split
    · next hdir =>
      rw [hdir] at h
      obtain ⟨t', ht'⟩ := Option.isSome_iff_exists.1 h
      obtain ⟨e, he, ht'⟩ := Option.bind_eq_some_iff.1 ht'
      rw [he, Option.bind_some]
      exact isSome_extend_of_append (Option.isSome_of_eq_some ht')
    · next hopen =>
      split at h
      · next hdir => exact absurd hdir (hopen _ _)
      · cases h

/-- A process can stand wherever there is something on the way down to where another one stands. -/
theorem isSome_start_of_prefix {above : List FileName} (habove : above <+: v.cwd.place)
    (hcwd : v.cwd.removed = false) (h : v.start.isSome = true) :
    ({ v with cwd := ⟨above, false⟩ } : View).start.isSome = true := by
  obtain ⟨rest, hrest⟩ := habove
  rw [start, hcwd, if_neg Bool.false_ne_true, ← hrest] at h
  rw [start, if_neg Bool.false_ne_true]
  exact isSome_extend_of_append h

/-- What a scan reports, once its root is known. -/
theorem payload_scan (hcommand : i.command.getD (.scan []) = .scan given)
    (hroot : v.resolveRoot i.root = .ok root) :
    v.payload i = .ok (.run (v.run root (scannedDirectories given))) := by
  rw [payload, hcommand]
  simp only [hroot, Except.map]

/-- Scans under one absolute root come to the same from everywhere, whether the root is given or
found. -/
theorem perform_scan_congr {j : Invocation} (hfiles : w.files = v.files)
    (hi : i.command.getD (.scan []) = .scan given) (hj : j.command = i.command)
    (hjson : j.json = i.json) (hv : v.resolveRoot i.root = .ok root)
    (hw : w.resolveRoot j.root = .ok root) (habsolute : root.isAbsolute = true) :
    w.payload j = v.payload i ∧ w.perform j = v.perform i := by
  have hrun := run_of_isAbsolute hfiles habsolute (scannedDirectories given)
  have hj' : j.command.getD (.scan []) = .scan given := by rw [hj, hi]
  constructor
  · rw [payload_scan hi hv, payload_scan hj' hw, hrun]
  · rw [perform_scan_eq hi hv, perform_scan_eq hj' hw, hrun, hjson]

/-- **A scan does not depend on where below its root it is started.**  The root that is found is a
place on the way down to the working directory.  Started there, and given that root from anywhere,
the scan has the same run, and so it prints the same and comes to the same verdict. -/
theorem perform_scan_below_root (hc : v.currentDirectory = .ok c)
    (hcommand : i.command.getD (.scan []) = .scan given) (hroot : i.root = none) :
    (∃ above, above <+: v.cwd.place ∧ pathOf above = v.detectRoot c ∧
      (v.start.isSome = true → ({ v with cwd := ⟨above, false⟩ } : View).start.isSome = true)) ∧
    v.payload i = .ok (.run (v.run (v.detectRoot c) (scannedDirectories given))) ∧
    ∀ w : View, w.files = v.files →
      (w.currentDirectory = .ok (v.detectRoot c) →
        w.payload i = v.payload i ∧ w.perform i = v.perform i) ∧
      w.payload { i with root := some (v.detectRoot c) } = v.payload i ∧
        w.perform { i with root := some (v.detectRoot c) } = v.perform i := by
  obtain ⟨hcwd, rfl⟩ := currentDirectory_eq_ok_iff.1 hc
  obtain ⟨above, habove, hdetect⟩ := exists_place_of_detectRoot v v.cwd.place
  have habsolute : (v.detectRoot (pathOf v.cwd.place)).isAbsolute = true := by
    rw [hdetect]
    exact isAbsolute_pathOf above
  have hv : v.resolveRoot i.root = .ok (v.detectRoot (pathOf v.cwd.place)) := by
    rw [hroot, resolveRoot, hc, Except.map]
  refine ⟨⟨above, habove, hdetect.symm, isSome_start_of_prefix habove hcwd⟩,
    payload_scan hcommand hv, fun w hfiles => ⟨fun hw => ?_, ?_⟩⟩
  · -- the root that is found from the root is the root itself, whoever looks for it
    have hroot' : w.resolveRoot i.root = .ok (v.detectRoot (pathOf v.cwd.place)) := by
      rw [hroot, resolveRoot, hw, Except.map, hdetect, detectRoot_pathOf hfiles, ← hdetect,
        detectRoot_detectRoot]
    exact perform_scan_congr hfiles hcommand rfl rfl hv hroot' habsolute
  · exact perform_scan_congr hfiles hcommand rfl rfl hv rfl habsolute

/-- Started in `/r/src`, started in `/r`, and given `/r` in a directory that is gone, a scan of two
names for one directory comes to the same document. -/
theorem perform_scan_below_emptySource :
    emptySource.detectRoot srcPath = ⟨[Path.slash, 0x72]⟩ ∧
    ({ emptySource with cwd := ⟨[rootName], false⟩ } : View).perform
        ⟨true, none, some (.scan ["src", "../r/src"])⟩ =
      emptySource.perform ⟨true, none, some (.scan ["src", "../r/src"])⟩ ∧
    removedSource.perform ⟨true, some ⟨[Path.slash, 0x72]⟩, some (.scan ["src", "../r/src"])⟩ =
      emptySource.perform ⟨true, none, some (.scan ["src", "../r/src"])⟩ := by
  have hdetect : emptySource.detectRoot srcPath = ⟨[Path.slash, 0x72]⟩ := by rfl
  obtain ⟨-, -, hsame⟩ := perform_scan_below_root (v := emptySource) (c := srcPath)
    (i := ⟨true, none, some (.scan ["src", "../r/src"])⟩) rfl rfl rfl
  rw [hdetect] at hsame
  exact ⟨hdetect, ((hsame { emptySource with cwd := ⟨[rootName], false⟩ } rfl).1 rfl).2,
    (hsame removedSource rfl).2.2⟩

end View

end SqlSanity
