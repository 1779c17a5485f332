import SqlSanity.Proofs.Discovery
import SqlSanity.Scan

/-!
# Proofs/FileSystem/Standpoint — an absolute path means the same from everywhere

A lookup asks for the working directory only when its path is relative, and the links that it meets
are followed from where they stand.  A walk from an absolute path makes no relative one.  So two
views of the same files agree on whatever is asked of absolute paths, up to the run of a whole scan.

* `View.lookUp_of_isAbsolute` — a lookup;
* `View.walk_of_isAbsolute` — a walk;
* `View.run_of_isAbsolute` — the run of a scan.
-/

namespace SqlSanity

/-- What is joined to an absolute path gives an absolute path. -/
theorem Path.isAbsolute_join_of_isAbsolute {p : Path} (h : p.isAbsolute = true) (q : Path) :
    (p.join q).isAbsolute = true := by
  have hne : p.bytes.head? = some slash := beq_iff_eq.1 h
  rw [join]
  split
  · next hq => exact hq
  · split <;> rw [isAbsolute, List.head?_append, hne] <;> rfl

namespace View

variable {v w : View} {p : Path}

/-! ## Lookups -/

theorem nodeOf_of_files (hfiles : w.files = v.files) :
    ∀ r : Except FileError Found, w.nodeOf r = v.nodeOf r
  | .error _ => rfl
  | .ok (.there t) => by rw [nodeOf, nodeOf, hfiles]
  | .ok (.absent _ _) => rfl

section Absolute

variable (hfiles : w.files = v.files) (h : p.isAbsolute = true)

include hfiles h

/-- **An absolute path is looked up alike from everywhere.** -/
theorem lookUp_of_isAbsolute (last only : Bool) : w.lookUp last only p = v.lookUp last only p := by
  rw [lookUp, lookUp, if_pos h, if_pos h, hfiles]

theorem find_of_isAbsolute : w.find p = v.find p := by
  rw [find, find, locate, locate, lookUp_of_isAbsolute hfiles h, nodeOf_of_files hfiles]

theorem findEntry_of_isAbsolute : w.findEntry p = v.findEntry p := by
  rw [findEntry, findEntry, locate, locate, lookUp_of_isAbsolute hfiles h, nodeOf_of_files hfiles]

theorem isDirectory_of_isAbsolute : w.isDirectory p = v.isDirectory p := by
  rw [isDirectory, isDirectory, find_of_isAbsolute hfiles h]

theorem validateFile_of_isAbsolute : w.validateFile p = v.validateFile p := by
  rw [validateFile, validateFile, readSource, readSource, read, read, find_of_isAbsolute hfiles h]

end Absolute

/-! ## Walks -/

mutual

/-- **A walk from an absolute path is the same from everywhere.** -/
theorem walk_of_isAbsolute (hfiles : w.files = v.files) : ∀ {p : Path} (node : Node),
    p.isAbsolute = true → w.walk p node = v.walk p node
  | _, .file _ _, _ => by rw [walk, walk]
  | _, .link _, h => by rw [walk, walk, isDirectory_of_isAbsolute hfiles h]
  | _, .directory _ entries, h => by
    rw [walk, walk, walkEntries_of_isAbsolute hfiles entries h]

theorem walkEntries_of_isAbsolute (hfiles : w.files = v.files) : ∀ {p : Path}
    (es : List (FileName × Node)), p.isAbsolute = true → w.walkEntries p es = v.walkEntries p es
  | _, [], _ => by rw [walkEntries, walkEntries]
  | _, (name, node) :: es, h => by
    rw [walkEntries, walkEntries, walkEntries_of_isAbsolute hfiles es h,
      walk_of_isAbsolute hfiles node (Path.isAbsolute_join_of_isAbsolute h _)]

end

theorem discover_of_isAbsolute (hfiles : w.files = v.files) (h : p.isAbsolute = true) :
    w.discover p = v.discover p := by
  have hwalk : ∀ node, w.walk p node = v.walk p node := fun node => walk_of_isAbsolute hfiles node h
  simp only [discover, findEntry_of_isAbsolute hfiles h, find_of_isAbsolute hfiles h, hwalk]

/-- A walk from an absolute path collects absolute paths. -/
theorem isAbsolute_of_mem_files_discover {q : Path} (h : p.isAbsolute = true)
    (hq : q ∈ (v.discover p).files) : q.isAbsolute = true := by
  have hbelow : ∃ names, q = p.below names := by
    rw [discover_eq] at hq
    split at hq
    · cases hq
    · next node hfind =>
      split at hq
      · exact exists_below_of_mem_walk Discovery.listsPaths_files (ordered_of_find hfind)
          (listedAs_of_find hfind) hq
      · exact ⟨[], (mem_files_collect.1 hq).2⟩
  have hne : p.bytes ≠ [] := fun hnil => by
    rw [Path.isAbsolute, hnil] at h
    cases h
  obtain ⟨names, rfl⟩ := hbelow
  rw [Path.isAbsolute_below hne, h]

theorem validateDirectory_of_isAbsolute (hfiles : w.files = v.files) (h : p.isAbsolute = true) :
    w.validateDirectory p = v.validateDirectory p := by
  have hreports : (v.discover p).files.map w.validateFile
      = (v.discover p).files.map v.validateFile :=
    List.map_congr_left fun q hq =>
      validateFile_of_isAbsolute hfiles (isAbsolute_of_mem_files_discover h hq)
  rw [validateDirectory, validateDirectory, discover_of_isAbsolute hfiles h, hreports]

/-! ## Scans -/

theorem survey_of_isAbsolute (hfiles : w.files = v.files) (name : String)
    (h : p.isAbsolute = true) : w.survey name p = v.survey name p := by
  rw [survey, survey, isDirectory_of_isAbsolute hfiles h, validateDirectory_of_isAbsolute hfiles h]

/-- **The run of a scan under an absolute root is the same from everywhere.** -/
theorem run_of_isAbsolute (hfiles : w.files = v.files) (h : p.isAbsolute = true)
    (names : List String) : w.run p names = v.run p names := by
  have hsurveys : (names.map fun name => w.survey name (p.join (.ofString name))) =
      names.map fun name => v.survey name (p.join (.ofString name)) :=
    List.map_congr_left fun name _ =>
      survey_of_isAbsolute hfiles name (Path.isAbsolute_join_of_isAbsolute h _)
  rw [run, run, hsurveys]

theorem hasSource_of_isAbsolute (hfiles : w.files = v.files) (h : p.isAbsolute = true) :
    w.hasSource p = v.hasSource p :=
  isDirectory_of_isAbsolute hfiles (Path.isAbsolute_join_of_isAbsolute h _)

end View

end SqlSanity
