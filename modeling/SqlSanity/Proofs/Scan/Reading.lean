import SqlSanity.Proofs.FileSystem.Dangling
import SqlSanity.Proofs.Scan.Reports
import SqlSanity.Proofs.Scan.Verdict

/-!
# Proofs/Scan/Reading — what a walk collects is read as what the walk has met

A walk goes down entry by entry, while reading a file looks the whole path up anew.  `View.Meets`
says which entry is met at a path, by listing alone.  The two agree on every path that can be asked
for: reading it gives the file that was met, and the path is not found only when the entry that was
met is a link and that link dangles.  The one disagreement is over paths that are too long to be
asked for: a walk collects them all the same, since it never asks for the files it collects.

* `View.exists_meets_of_mem_files` — an entry that is no directory is met at each path collected;
* `View.Meets.readSource_file` — reading a path where a file was met;
* `View.Meets.readSource_notFound_iff` — when a path that was collected is not found;
* `View.readSource_files_discover` — reading the paths that a walk collects;
* `View.readSource_slashedSource` — a file that is collected and cannot be asked for.
-/

namespace SqlSanity

namespace View

variable {v : View} {p r : Path} {node child : Node} {locked : Bool} {content : Bytes}

/-! ## The entry that is met at a path -/

/-- A walk from `r` meets an entry at a path: at `r` the entry of `r` itself, and below `r` what
listing leads to. -/
def Meets (v : View) (r p : Path) (node : Node) : Prop :=
  p = r ∧ v.findEntry r = .ok node ∨ ∃ names, p = r.below names ∧ v.Leads r names node

/-- **One entry is met at a path at most.** -/
theorem Meets.unique (h : v.Meets r p node) (h' : v.Meets r p child) : node = child := by
  rcases h with ⟨rfl, hentry⟩ | ⟨names, rfl, hleads⟩
  · rcases h' with ⟨-, hentry'⟩ | ⟨names, hpath, hleads⟩
    · exact Except.ok.inj (hentry.symm.trans hentry')
    · exact absurd (Path.below_injective ((Path.below_nil p).trans hpath)).symm hleads.ne_nil
  · rcases h' with ⟨hpath, -⟩ | ⟨names', hpath, hleads'⟩
    · exact absurd (Path.below_injective (hpath.trans (Path.below_nil r).symm)) hleads.ne_nil
    · obtain rfl := Path.below_injective hpath
      exact hleads.unique hleads'

/-- **What is met at a path is the entry there**, unless the path is too long. -/
theorem Meets.findEntry (h : v.Meets r p node) (hlen : p.isTooLong = false) :
    v.findEntry p = .ok node := by
  rcases h with ⟨rfl, hentry⟩ | ⟨names, rfl, hleads⟩
  · exact hentry
  · exact hleads.findEntry hlen

/-- A path that is too long leads nowhere, whatever is met there. -/
theorem Meets.find_of_isTooLong (h : v.Meets r p node) (hlen : p.isTooLong = true) :
    v.find p = .error .nameTooLong := by
  rcases h with ⟨rfl, hentry⟩ | ⟨names, rfl, hleads⟩
  · obtain ⟨found, hfound, -⟩ := nodeOf_eq_ok_iff.1 hentry
    exact absurd hlen (Bool.eq_false_iff.1 (locate_eq_ok_iff.1 hfound).2.1)
  · exact View.find_of_isTooLong hleads.contains_nul hlen

/-- **At each path that a walk collects an entry is met that is no directory.** -/
theorem exists_meets_of_mem_files (hp : p ∈ (v.discover r).files) :
    ∃ node, v.Meets r p node ∧ v.isLeaf p node = true := by
  rcases h : v.find r with e | node
  · rw [discover_eq, h] at hp
    exact absurd hp List.not_mem_nil
  by_cases hdir : node.isDirectory = true
  · obtain ⟨names, n, child, hleads, hleaf, -, rfl⟩ := (mem_files_discover h hdir).1 hp
    exact ⟨child, .inr ⟨_, rfl, hleads⟩, hleaf⟩
  · rw [(discover_of_not_isDirectory h (Bool.eq_false_iff.2 hdir)).1, mem_files_collect] at hp
    obtain ⟨-, rfl⟩ := hp
    rcases hentry : v.findEntry p with e | ⟨locked, content⟩ | target | ⟨locked, entries⟩
    · rw [find_of_findEntry_error hentry] at h
      cases h
    · exact ⟨_, .inl ⟨rfl, hentry⟩, rfl⟩
    · refine ⟨_, .inl ⟨rfl, hentry⟩, ?_⟩
      rw [isLeaf, Bool.not_eq_true', isDirectory, h]
      exact Bool.eq_false_iff.2 hdir
    · obtain rfl := Except.ok.inj (h.symm.trans (find_of_findEntry hentry rfl))
      exact absurd rfl hdir

/-- What is collected at a path does not lead to a directory. -/
theorem Meets.isDirectory_of_isLeaf (h : v.Meets r p node) (hleaf : v.isLeaf p node = true) :
    v.isDirectory p = false := by
  rcases node with ⟨locked, content⟩ | target | ⟨locked, entries⟩
  · rw [isDirectory]
    by_cases hlen : p.isTooLong = true
    · rw [h.find_of_isTooLong hlen]
    · rw [find_of_findEntry (h.findEntry (Bool.eq_false_iff.2 hlen)) rfl]
      rfl
  · exact Bool.not_eq_true' _ ▸ hleaf
  · exact absurd hleaf Bool.false_ne_true

/-! ## Reading it -/

/-- **Reading a path where a file was met works on the bytes of that file**, or fails because the
file is locked or the path is too long. -/
theorem Meets.readSource_file (h : v.Meets r p (.file locked content)) : v.readSource p =
    if p.isTooLong then .error (.unreadable .nameTooLong)
    else if locked then .error (.unreadable .denied)
    else (Utf8.decode content).mapError .notText := by
  split
  · next hlen => exact readSource_of_error (read_of_find_error (h.find_of_isTooLong hlen))
  · next hlen =>
    have hfind := find_of_findEntry (h.findEntry (Bool.eq_false_iff.2 hlen)) rfl
    split
    · next hlocked =>
      rw [hlocked] at hfind
      exact readSource_of_error (by rw [read, hfind])
    · next hopen =>
      rw [Bool.eq_false_iff.2 hopen] at hfind
      exact readSource_of_ok (by rw [read, hfind])

/-- **A path that was collected is not found exactly when a link was met there that dangles**, and
the path is not too long. -/
theorem Meets.readSource_notFound_iff (h : v.Meets r p node)
    (hleaf : v.isLeaf p node = true) : v.readSource p = .error .notFound ↔
      p.isTooLong = false ∧ (∃ target, node = .link target) ∧ v.Dangles p := by
  rw [readSource_eq_notFound_iff]
  by_cases hlen : p.isTooLong = true
  · rw [h.find_of_isTooLong hlen, hlen]
    simp
  have hentry := h.findEntry (Bool.eq_false_iff.2 hlen)
  rw [and_iff_right (Bool.eq_false_iff.2 hlen), find_eq_noEntry_iff hentry]
  refine ⟨fun hdangles => ⟨?_, hdangles⟩, And.right⟩
  have hmissing := (find_eq_noEntry_iff hentry).2 hdangles
  rcases node with ⟨locked, content⟩ | target | ⟨locked, entries⟩
  · rw [find_of_findEntry hentry rfl] at hmissing
    cases hmissing
  · exact ⟨target, rfl⟩
  · exact absurd hleaf Bool.false_ne_true

/-- Reading a path that leads to no directory does not fail at a directory. -/
theorem readSource_ne_isDirectory (h : v.isDirectory p = false) :
    v.readSource p ≠ .error (.unreadable .isDirectory) := by
  intro hread
  have hread : v.read p = .error .isDirectory := readSource_eq_ofFileError_iff.1 hread
  rcases hfind : v.find p with e | node
  · obtain rfl := Except.error.inj ((read_of_find_error hfind).symm.trans hread)
    exact find_ne_isDirectory hfind
  · rcases error_of_read hfind hread with he | ⟨-, hdir⟩ | he
    · cases he
    · exact absurd (isDirectory_iff.2 ⟨node, hfind, hdir⟩) (Bool.eq_false_iff.1 h)
    · cases he

/-- **What a walk collects is read as what the walk has met.**  At each path collected one entry is
met, which is the one that the path has when it can be asked for.  Where that is a file, reading the
path works on the bytes of that file, unless the file is locked or the path too long; and the path
is not found exactly when it is not too long and the entry is a link that dangles.  Reading never
fails at a directory, and the reports are about different paths. -/
theorem readSource_files_discover (v : View) (r : Path) :
    (∀ p ∈ (v.discover r).files, v.readSource p ≠ .error (.unreadable .isDirectory) ∧
      ∃ node, (v.Meets r p node ∧ ∀ node', v.Meets r p node' → node' = node) ∧
        (p.isTooLong = false → v.findEntry p = .ok node) ∧
        (∀ locked content, node = .file locked content → v.readSource p =
          if p.isTooLong then .error (.unreadable .nameTooLong)
          else if locked then .error (.unreadable .denied)
          else (Utf8.decode content).mapError .notText) ∧
        (v.readSource p = .error .notFound ↔
          p.isTooLong = false ∧ (∃ target, node = .link target) ∧ v.Dangles p)) ∧
    (v.validateDirectory r).reports.Pairwise fun a b => a.path ≠ b.path := by
  have hdifferent : (v.validateDirectory r).reports.Pairwise fun a b => a.path ≠ b.path :=
    pairwise_path_validateDirectory.imp fun {a b} hne heq => hne (congrArg Path.steps heq)
  refine ⟨fun p hp => ?_, hdifferent⟩
  obtain ⟨node, hmeets, hleaf⟩ := exists_meets_of_mem_files hp
  refine ⟨readSource_ne_isDirectory (hmeets.isDirectory_of_isLeaf hleaf), node,
    ⟨hmeets, fun node' h' => h'.unique hmeets⟩, hmeets.findEntry, fun locked content hfile => ?_,
    hmeets.readSource_notFound_iff hleaf⟩
  exact (hfile ▸ hmeets).readSource_file

/-- A process in the directory `/r/src`, which holds a link `a.sql` to a name that is not there, and
there is nothing else. -/
def danglingSource : View where
  files :=
    ⟨.directory false [(rootName, .directory false [(srcName, .directory false
      [(sqlName, .link ⟨[0x62]⟩)])])], .single (.single (.single (.link ⟨[0x62]⟩)))⟩
  cwd := ⟨[rootName, srcName], false⟩

/-- An empty file is read as the empty text, and a link to nowhere is not found. -/
theorem readSource_emptySource :
    emptySource.readSource (srcPath.below [sqlName]) = .ok [] ∧
      danglingSource.readSource (srcPath.below [sqlName]) = .error .notFound := by
  have hpath : (srcPath.below [sqlName]).isTooLong = false := by rfl
  constructor
  · have hfiles : (emptySource.discover srcPath).files = [srcPath.below [sqlName]] := by rfl
    obtain ⟨-, node, -, hentry, hfile, -⟩ :=
      (readSource_files_discover emptySource srcPath).1 _ (hfiles ▸ List.mem_singleton_self _)
    have hnode : node = .file false [] := Except.ok.inj ((hentry hpath).symm.trans rfl)
    exact hfile false [] hnode
  · have hfiles : (danglingSource.discover srcPath).files = [srcPath.below [sqlName]] := by rfl
    obtain ⟨-, node, -, hentry, -, hmissing⟩ :=
      (readSource_files_discover danglingSource srcPath).1 _ (hfiles ▸ List.mem_singleton_self _)
    have hnode : node = .link ⟨[0x62]⟩ := Except.ok.inj ((hentry hpath).symm.trans rfl)
    refine hmissing.2 ⟨hpath, ⟨_, hnode⟩, [], rfl, .link rfl rfl ?_⟩
    exact @FileSystem.Dangles.missing _ _ _ _ [] _ _ rfl
      ⟨_, rfl, rfl, by decide, by decide, by decide⟩

/-! ## A file that cannot be asked for -/

/-- The path `/r/src` with slashes behind it leads to the same directory. -/
theorem list_slashed {n : Nat} (hlen : (srcPath.slashed n).isTooLong = false) :
    emptySource.list (srcPath.slashed n) = .ok [(sqlName, .file false [])] := by
  have hnul : (srcPath.slashed n).bytes.contains 0 = false :=
    (Path.contains_nul_slashed srcPath n).trans rfl
  have hwalk : ∃ t, (Trail.walk emptySource.files.root [] srcPath.steps = .there t) ∧
      t.here emptySource.files.root = .directory false [(sqlName, .file false [])] := ⟨_, rfl, rfl⟩
  obtain ⟨t, hwalk, hhere⟩ := hwalk
  have hfollow : emptySource.files.follow true FileSystem.maxLinks
      (srcPath.slashed n).endsInSlash [] (srcPath.slashed n).steps = .ok (.there t) := by
    rw [Path.steps_slashed, FileSystem.follow, hwalk]
    simp [hhere, Node.isDirectory]
  have hlocate := locate_eq_ok_iff.2 ⟨hnul, hlen, rfl, [], rfl, hfollow⟩
  exact list_eq_ok_iff.2 (nodeOf_eq_ok_iff.2 ⟨t, hlocate, hhere⟩)

/-- The path `/r/src` with so many slashes behind it that it can just be asked for. -/
def slashedSource : Path := srcPath.slashed 4087

/-- **A walk collects a file whose path is too long to be asked for**: reading it gives neither its
text nor a fault of its bytes nor a denial. -/
theorem readSource_slashedSource :
    slashedSource.below [sqlName] ∈ (emptySource.discover slashedSource).files ∧
      emptySource.Meets slashedSource (slashedSource.below [sqlName]) (.file false []) ∧
      emptySource.readSource (slashedSource.below [sqlName]) =
        .error (.unreadable .nameTooLong) ∧
      emptySource.readSource (slashedSource.below [sqlName]) ≠
        (Utf8.decode []).mapError .notText := by
  have hlength : slashedSource.bytes.length = 4093 := Path.length_slashed srcPath 4087
  have hlist : emptySource.list slashedSource = .ok [(sqlName, .file false [])] :=
    list_slashed (by rw [Path.isTooLong, ← slashedSource, hlength]; rfl)
  have hleads : emptySource.Leads slashedSource [sqlName] (.file false []) :=
    .entry hlist (List.mem_singleton_self _)
  have hmeets : emptySource.Meets slashedSource (slashedSource.below [sqlName]) (.file false []) :=
    .inr ⟨_, rfl, hleads⟩
  have hlen : (slashedSource.below [sqlName]).isTooLong = true := by
    have hname : sqlName.bytes.length = 5 := rfl
    have hmore := Path.le_length_join slashedSource sqlName
    rw [hlength, hname] at hmore
    have hmax : FileSystem.maxPathLength < 4093 + 5 := by
      rw [FileSystem.maxPathLength]
      omega
    rw [Path.isTooLong, Path.below_cons, Path.below_nil]
    exact decide_eq_true (Nat.lt_of_lt_of_le hmax hmore)
  have hread : emptySource.readSource (slashedSource.below [sqlName]) =
      .error (.unreadable .nameTooLong) := by
    rw [hmeets.readSource_file, if_pos hlen]
  have hmem : slashedSource.below [sqlName] ∈ (emptySource.discover slashedSource).files :=
    (mem_files_discover (list_eq_ok_iff.1 hlist) rfl).2
      ⟨[], sqlName, _, hleads, rfl, ⟨[0x61], List.cons_ne_nil _ _, rfl⟩, rfl⟩
  refine ⟨hmem, hmeets, hread, ?_⟩
  rw [hread]
  intro h
  cases h

end View

end SqlSanity
