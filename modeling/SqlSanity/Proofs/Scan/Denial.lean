import Mathlib.Data.List.Nodup
import SqlSanity.Proofs.Scan.Locking
import SqlSanity.Proofs.Scan.Reading

/-!
# Proofs/Scan/Denial — a report that locking takes away has a denial in its place

Locking a directory takes the reports on everything below it out of a batch, and locking a file
changes its report.  Neither goes unnoticed: the batch gets a failure that it did not have, about
the directory that cannot be listed or the file that cannot be read.  So a batch that passes once
more is locked passed before.

* `View.list_ne_ok_of_mem_reports` — no report is about a directory that can be listed;
* `View.mem_files_lockAt`, `View.mem_obstacles_lockAt` — what a walk collects where more is locked;
* `View.Displaces` — the failure in the place of a report;
* `View.validateDirectory_lockAt` — the batch of a tree where more is locked.
-/

namespace SqlSanity

namespace View

variable {v : View} {s : List FileName → Bool} {p q : Path} {names front more : List FileName}
  {o : Obstacle} {r r' : Report} {es : Entries} {e : FileError} {node child : Node}

/-! ## What a report is about -/

theorem mem_reports_iff : r ∈ (v.validateDirectory p).reports ↔
    (∃ q ∈ (v.discover p).files, r = v.validateFile q) ∨
      ∃ o ∈ (v.discover p).obstacles, r = o.report := by
  rw [reports_validateDirectory, List.mem_append, List.mem_map, List.mem_map]
  simp only [eq_comm (b := r)]

/-- A path has one report. -/
theorem eq_of_mem_reports (h : r ∈ (v.validateDirectory p).reports)
    (h' : r' ∈ (v.validateDirectory p).reports) (hpath : r'.path = r.path) : r' = r := by
  have hnodup : ((v.validateDirectory p).reports.map fun r => r.path.steps).Nodup :=
    List.pairwise_map.2 pairwise_path_validateDirectory
  exact List.inj_on_of_nodup_map hnodup h' h (congrArg Path.steps hpath)

/-- A walk that has obstacles starts at a directory, if anywhere. -/
theorem isDirectory_of_mem_obstacles (h : o ∈ (v.discover p).obstacles)
    (hfind : v.find p = .ok node) : node.isDirectory = true := by
  refine Classical.byContradiction fun hdir => ?_
  rw [(discover_of_not_isDirectory hfind (Bool.eq_false_iff.2 hdir)).1, obstacles_collect] at h
  cases h

/-- Obstacles are at the start and at what is met. -/
theorem of_mem_obstacles (h : o ∈ (v.discover p).obstacles) :
    v.list o.path = .error o.error ∧ ∃ names, o.path = p.below names ∧ v.Enters p names := by
  rcases hfind : v.find p with e | node
  · rw [discover_eq, hfind] at h
    obtain rfl := List.mem_singleton.1 h
    exact ⟨list_of_find_error hfind, [], rfl, .nil⟩
  · obtain ⟨hlist, hpath | ⟨names, child, hleads, hdir, hpath⟩⟩ :=
      (mem_obstacles_discover hfind (isDirectory_of_mem_obstacles h hfind)).1 h
    · exact ⟨hlist, [], hpath, .nil⟩
    · exact ⟨hlist, names, hpath, .inr ⟨child, hleads, hdir⟩⟩

/-- An obstacle is noted where a directory cannot be listed. -/
theorem mem_obstacles (hreal : ∀ node, v.find p = .ok node → node.isDirectory = true)
    (henters : v.Enters p names) (hlist : v.list (p.below names) = .error e) :
    ⟨p.below names, e⟩ ∈ (v.discover p).obstacles := by
  rcases hfind : v.find p with e' | node
  · have hlist' : v.list p = .error e' := list_of_find_error hfind
    rcases henters with rfl | ⟨node, hleads, -⟩
    · obtain rfl : e = e' := Except.error.inj (hlist.symm.trans hlist')
      rw [discover_eq, hfind]
      exact List.mem_singleton_self _
    · exact absurd hleads (not_leads hlist')
  · refine (mem_obstacles_discover hfind (hreal node hfind)).2 ⟨hlist, ?_⟩
    rcases henters with rfl | ⟨child, hleads, hdir⟩
    · exact .inl rfl
    · exact .inr ⟨names, child, hleads, hdir, rfl⟩

/-- **No report is about a directory that can be listed.** -/
theorem list_ne_ok_of_mem_reports (h : r ∈ (v.validateDirectory p).reports) :
    v.list r.path ≠ .ok es := by
  intro hlist
  rcases mem_reports_iff.1 h with ⟨q, hq, rfl⟩ | ⟨o, ho, rfl⟩
  · rw [path_validateFile] at hlist
    obtain ⟨node, hmeets, hleaf⟩ := exists_meets_of_mem_files hq
    have hdir : v.isDirectory q = true := isDirectory_iff.2 ⟨_, list_eq_ok_iff.1 hlist, rfl⟩
    exact Bool.false_ne_true ((hmeets.isDirectory_of_isLeaf hleaf).symm.trans hdir)
  · exact nomatch (of_mem_obstacles ho).1.symm.trans hlist

/-- Every report is about the start of the walk or about what is met below it. -/
theorem exists_leads_of_mem_reports (h : r ∈ (v.validateDirectory p).reports) :
    ∃ names, r.path = p.below names ∧ (names = [] ∨ ∃ node, v.Leads p names node) := by
  rcases mem_reports_iff.1 h with ⟨q, hq, rfl⟩ | ⟨o, ho, rfl⟩
  · rw [path_validateFile]
    obtain ⟨node, ⟨rfl, -⟩ | ⟨names, rfl, hleads⟩, -⟩ := exists_meets_of_mem_files hq
    · exact ⟨[], rfl, .inl rfl⟩
    · exact ⟨names, rfl, .inr ⟨node, hleads⟩⟩
  · obtain ⟨-, names, hpath, henters⟩ := of_mem_obstacles ho
    exact ⟨names, hpath, henters.imp_right fun ⟨node, hleads, _⟩ => ⟨node, hleads⟩⟩

/-- The directories on the way down some names can be listed. -/
theorem Leads.exists_list_below (h : v.Leads p names node) (hnames : names = front ++ more)
    (hmore : more ≠ []) : ∃ es, v.list (p.below front) = .ok es := by
  induction h generalizing front with
  | @entry p es n node hlist hmem =>
    cases front with
    | nil => exact ⟨es, hlist⟩
    | cons m front =>
      obtain ⟨-, hnil⟩ := List.cons.inj hnames
      exact absurd (List.append_eq_nil_iff.1 hnil.symm).2 hmore
  | @through p es n dir node names hlist hmem hdir _ ih =>
    cases front with
    | nil => exact ⟨es, hlist⟩
    | cons m front =>
      obtain ⟨rfl, hrest⟩ := List.cons.inj hnames
      exact ih hrest

/-! ## A walk where more is locked -/

/-- What blocks the way down is an obstacle. -/
theorem DeniedAt.mem_obstacles (h : v.DeniedAt p names front more) :
    ⟨p.below front, .denied⟩ ∈ (v.discover p).obstacles := by
  refine View.mem_obstacles (fun node hfind => ?_) h.enters h.list
  rcases h.enters with rfl | ⟨child, hleads, -⟩
  · have hlisted := (list_of_find hfind).symm.trans h.list
    cases node with
    | file locked content => cases hlisted
    | link target => cases hlisted
    | directory locked es => rfl
  · obtain ⟨es, hlist⟩ := hleads.exists_list
    obtain rfl := Except.ok.inj (hfind.symm.trans (list_eq_ok_iff.1 hlist))
    rfl

/-- What the start of a walk leads to is a directory where more is locked if it was one. -/
theorem isDirectory_start_lockAt (hreal : ∀ node, v.find p = .ok node → node.isDirectory = true)
    {node' : Node} (hfind' : (v.lockAt s).find p = .ok node') : node'.isDirectory = true := by
  have hfind := find_lockAt v s p
  rw [hfind'] at hfind
  obtain ⟨node, hnode, s', rfl⟩ := hfind.exists_of_ok
  rw [Node.isDirectory_lockAt]
  exact hreal node hnode

/-- **A file that was collected is collected still, unless the way to it is blocked.** -/
theorem mem_files_lockAt (h : q ∈ (v.discover p).files) :
    q ∈ ((v.lockAt s).discover p).files ∨ ∃ names front more, q = p.below names ∧
      (v.lockAt s).DeniedAt p names front more := by
  rcases hfind : v.find p with e | node
  · rw [discover_eq, hfind] at h
    cases h
  by_cases hdir : node.isDirectory = true
  · obtain ⟨names, n, child, hleads, hleaf, hnamed, rfl⟩ := (mem_files_discover hfind hdir).1 h
    rcases leads_lockAt (s := s) hleads with ⟨front, more, hdenied⟩ | ⟨s', hleads'⟩
    · exact .inr ⟨_, front, more, rfl, hdenied⟩
    · obtain ⟨es, hlist'⟩ := hleads'.exists_list
      exact .inl ((mem_files_discover (list_eq_ok_iff.1 hlist') rfl).2
        ⟨names, n, _, hleads', isLeaf_lockAt hleaf, hnamed, rfl⟩)
  · have hdir := Bool.eq_false_iff.2 hdir
    rw [(discover_of_not_isDirectory hfind hdir).1] at h
    obtain ⟨hsql, rfl⟩ := mem_files_collect.1 h
    have hfind' := find_lockAt v s q
    rw [hfind] at hfind'
    obtain hdenied | ⟨_, hfind', s', rfl⟩ := hfind'.of_ok
    · exact .inr ⟨[], [], [], rfl, rfl, .nil, list_of_find_error hdenied⟩
    · rw [← Node.isDirectory_lockAt (s := s')] at hdir
      rw [(discover_of_not_isDirectory hfind' hdir).1]
      exact .inl h

/-- **An obstacle that was there is there still, unless the way to it is blocked.** -/
theorem mem_obstacles_lockAt (h : o ∈ (v.discover p).obstacles) :
    o ∈ ((v.lockAt s).discover p).obstacles ∨ ∃ names front more, o.path = p.below names ∧
      (v.lockAt s).DeniedAt p names front more := by
  obtain ⟨path, e⟩ := o
  obtain ⟨hlist, names, rfl, henters⟩ := of_mem_obstacles h
  -- The directory is met still, or the way down to it is blocked before.
  have henters' : (∃ front more, (v.lockAt s).DeniedAt p names front more) ∨
      (v.lockAt s).Enters p names := by
    rcases henters with rfl | ⟨node, hleads, hdir⟩
    · exact .inr .nil
    · rcases leads_lockAt (s := s) hleads with hdenied | ⟨s', hleads'⟩
      · exact .inl hdenied
      · exact .inr (.inr ⟨_, hleads', by rwa [Node.isDirectory_lockAt]⟩)
  rcases henters' with ⟨front, more, hdenied⟩ | henters'
  · exact .inr ⟨names, front, more, rfl, hdenied⟩
  have hlist' := list_lockAt v s (p.below names)
  rw [hlist] at hlist'
  generalize hnew : (v.lockAt s).list (p.below names) = new at hlist'
  cases hlist' with
  | denied => exact .inr ⟨names, names, [], rfl, (List.append_nil names).symm, henters', hnew⟩
  | error =>
    have hreal : ∀ node, v.find p = .ok node → node.isDirectory = true := fun node hfind =>
      isDirectory_of_mem_obstacles h hfind
    exact .inl
      (mem_obstacles (fun node hfind => isDirectory_start_lockAt hreal hfind) henters' hnew)

/-! ## A batch where more is locked -/

/-- The report on a file is the one that there was, or says that the file cannot be read. -/
theorem validateFile_lockAt (v : View) (s : List FileName → Bool) (q : Path) :
    (v.lockAt s).validateFile q = v.validateFile q ∨
      (v.lockAt s).read q = .error .denied ∧ (v.lockAt s).validateFile q =
        .failed q ((SourceError.unreadable .denied).message q) := by
  by_cases hread : (v.lockAt s).read q = .error .denied
  · refine .inr ⟨hread, ?_⟩
    rw [validateFile, readSource_of_error hread]
    rfl
  · refine .inl ?_
    rw [validateFile, validateFile, readSource, readSource, (read_lockAt v s q).eq_of_ne hread]

/-- What stands in the place of a report in the batch from `p`: the failure of a directory that the
path of the report lies below, the start of the walk or one further down, or else the failure of the
file or link itself.  It is for want of permission. -/
inductive Displaces (v : View) (p : Path) (r : Report) : Report → Prop
  | directory {front more : List FileName} (below : r.path = p.below (front ++ more))
      (list : v.list (p.below front) = .error .denied) :
      Displaces v p r (Obstacle.report ⟨p.below front, .denied⟩)
  | source (read : v.read r.path = .error .denied) :
      Displaces v p r (.failed r.path ((SourceError.unreadable .denied).message r.path))

theorem Displaces.status (h : v.Displaces p r r') : r'.status = .failure := by
  cases h with
  | directory below list => rfl
  | source read => rfl

/-- What blocks the way to a report is reported in its place. -/
theorem DeniedAt.exists_displaces (h : v.DeniedAt p names front more)
    (hpath : r.path = p.below names) :
    ∃ r' ∈ (v.validateDirectory p).reports, v.Displaces p r r' :=
  ⟨_, mem_reports_iff.2 (.inr ⟨_, h.mem_obstacles, rfl⟩), .directory (h.split ▸ hpath) h.list⟩

/-- **A report is there still, or a denial is in its place.** -/
theorem mem_or_displaces_lockAt (h : r ∈ (v.validateDirectory p).reports) :
    r ∈ ((v.lockAt s).validateDirectory p).reports ∨
      ∃ r' ∈ ((v.lockAt s).validateDirectory p).reports, (v.lockAt s).Displaces p r r' := by
  rcases mem_reports_iff.1 h with ⟨q, hq, rfl⟩ | ⟨o, ho, rfl⟩
  · rcases mem_files_lockAt (s := s) hq with hq' | ⟨names, front, more, hpath, hdenied⟩
    · have hreport : (v.lockAt s).validateFile q ∈ ((v.lockAt s).validateDirectory p).reports :=
        mem_reports_iff.2 (.inl ⟨q, hq', rfl⟩)
      rcases validateFile_lockAt v s q with hsame | ⟨hread, hfailed⟩
      · exact .inl (hsame ▸ hreport)
      · have hread' : (v.lockAt s).read (v.validateFile q).path = .error .denied := by
          rw [path_validateFile, hread]
        have hdisplaces := Displaces.source (p := p) hread'
        rw [path_validateFile, ← hfailed] at hdisplaces
        exact .inr ⟨_, hreport, hdisplaces⟩
    · exact .inr (hdenied.exists_displaces (path_validateFile.trans hpath))
  · rcases mem_obstacles_lockAt (s := s) ho with ho' | ⟨names, front, more, hpath, hdenied⟩
    · exact .inl (mem_reports_iff.2 (.inr ⟨o, ho', rfl⟩))
    · exact .inr (hdenied.exists_displaces hpath)

/-- **A denial in the place of a report that is gone was not there before**: a path has one report,
and the directories above what is reported on could be listed. -/
theorem Displaces.not_mem (h : (v.lockAt s).Displaces p r r')
    (hr : r ∈ (v.validateDirectory p).reports)
    (hr' : r' ∈ ((v.lockAt s).validateDirectory p).reports)
    (hgone : r ∉ ((v.lockAt s).validateDirectory p).reports) :
    r' ∉ (v.validateDirectory p).reports := by
  intro hmem
  have hne : r'.path ≠ r.path := fun hpath => hgone (eq_of_mem_reports hr hmem hpath ▸ hr')
  cases h with
  | source hread => exact hne rfl
  | @directory front more hbelow hlist =>
    have hmore : more ≠ [] := by
      rintro rfl
      rw [List.append_nil] at hbelow
      exact hne hbelow.symm
    obtain ⟨names, hpath, hleads⟩ := exists_leads_of_mem_reports hr
    obtain rfl := Path.below_injective (hpath.symm.trans hbelow)
    rcases hleads with hnil | ⟨node, hleads⟩
    · exact hmore (List.append_eq_nil_iff.1 hnil).2
    · obtain ⟨es, hlist⟩ := hleads.exists_list_below rfl hmore
      exact list_ne_ok_of_mem_reports hmem hlist

/-- **Locking takes a report out of a batch only by putting a failure into it**, which is about a
directory that cannot be listed, the start of the walk or one further down on the way to what was
reported on, or about the file or link itself, which cannot be read.  So a batch that passes once
more is locked passed before. -/
theorem validateDirectory_lockAt (v : View) (s : List FileName → Bool) (p : Path) :
    (((v.lockAt s).validateDirectory p).allValid = true →
        (v.validateDirectory p).allValid = true) ∧
      ∀ r ∈ (v.validateDirectory p).reports, r ∉ ((v.lockAt s).validateDirectory p).reports →
        ∃ r' ∈ ((v.lockAt s).validateDirectory p).reports,
          r' ∉ (v.validateDirectory p).reports ∧ r'.status = .failure ∧
            (v.lockAt s).Displaces p r r' := by
  refine ⟨fun hvalid => ?_, fun r hr hgone => ?_⟩
  · rw [validateDirectory, Batch.allValid_ofReports_iff] at hvalid ⊢
    intro r hr
    rcases mem_or_displaces_lockAt (s := s) hr with hr' | ⟨r', hr', hdisplaces⟩
    · exact hvalid r hr'
    · exact absurd hdisplaces.status (Report.isValid_iff.1 (hvalid r' hr'))
  · obtain ⟨r', hr', hdisplaces⟩ := (mem_or_displaces_lockAt (s := s) hr).resolve_left hgone
    exact ⟨r', hr', hdisplaces.not_mem hr hr' hgone, hdisplaces.status, hdisplaces⟩

end View

end SqlSanity
