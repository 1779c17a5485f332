import SqlSanity.Proofs.Scan.Reports
import SqlSanity.Proofs.Scan.Verdict

/-!
# Proofs/Scan/Subtree — the walk of a subtree is a slice of the whole walk

A walk goes down a tree with the directories in hand, and a walk that starts further down looks its
start up by path.  What the one finds below a real directory is nevertheless what the other finds
from there: the same files and the same obstacles, in the same order, and side by side in the whole
walk.  So the reports of the subtree are the reports of the whole tree that lie within it.

* `View.Leads.discover_below` — a walk that starts at a directory goes on as one that comes to it;
* `View.Leads.infix_discover` — what is listed of a subtree stands side by side;
* `View.Leads.filter_discover` — and is all that lies within the subtree;
* `View.validateDirectory_subtree` — the slices of files, obstacles and reports.
-/

namespace SqlSanity

/-- A piece of a list without repetitions is the list filtered by what is in the piece. -/
theorem filter_eq_of_isInfix {α : Type} {part whole : List α} {test : α → Bool}
    (hpart : part <:+: whole) (hnodup : whole.Nodup)
    (htest : ∀ a ∈ whole, test a = true ↔ a ∈ part) : whole.filter test = part := by
  obtain ⟨front, back, rfl⟩ := hpart
  obtain ⟨hfront, -, hback⟩ := List.nodup_append.1 hnodup
  obtain ⟨-, -, hfront⟩ := List.nodup_append.1 hfront
  have hnone : ∀ {l : List α}, (∀ a ∈ l, a ∈ front ++ part ++ back ∧ a ∉ part) →
      l.filter test = [] := fun h => by
    refine List.filter_eq_nil_iff.2 fun a ha => ?_
    rw [htest a (h a ha).1]
    exact (h a ha).2
  rw [List.filter_append, List.filter_append,
    hnone fun a ha => ⟨by simp [ha], fun hmem => hfront a ha a hmem rfl⟩,
    hnone fun a ha => ⟨by simp [ha], fun hmem => hback a (by simp [hmem]) a ha rfl⟩,
    List.filter_eq_self.2 fun a ha => (htest a (by simp [ha])).2 ha]
  simp

namespace View

variable {v : View} {p r : Path} {names more : List FileName} {dir child node : Node} {α : Type}
  {f : Discovery → List α} {path : α → Path}

/-! ## The walk of a subtree -/

/-- What is met behind a real directory is met from there. -/
theorem Leads.of_append (h : v.Leads r names dir) (hdir : dir.isDirectory = true)
    (hmore : more ≠ []) (h' : v.Leads r (names ++ more) child) :
    v.Leads (r.below names) more child := by
  induction h with
  | entry hlist hmem =>
    obtain ⟨entry, -, ⟨hnames, -⟩ | ⟨-, rest, hnames, hrest⟩⟩ := (leads_iff hlist).1 h'
    · exact absurd (List.cons.inj hnames).2 hmore
    · obtain ⟨rfl, rfl⟩ := List.cons.inj hnames
      exact hrest
  | through hlist hmem _ hleads ih =>
    obtain ⟨entry, -, ⟨hnames, -⟩ | ⟨-, rest, hnames, hrest⟩⟩ := (leads_iff hlist).1 h'
    · exact absurd (List.append_eq_nil_iff.1 (List.cons.inj hnames).2).1 hleads.ne_nil
    · obtain ⟨rfl, rfl⟩ := List.cons.inj hnames
      exact ih hdir hrest

/-- **A walk that starts at a real directory that is met goes on as the walk that comes to it**: the
directory is the one found under its path, unless it is too far down to be asked for, and then
neither walk goes on. -/
theorem Leads.discover_below (h : v.Leads r names dir) (hdir : dir.isDirectory = true) :
    v.discover (r.below names) = v.walk (r.below names) dir := by
  obtain ⟨locked, entries, rfl⟩ : ∃ locked entries, dir = .directory locked entries := by
    cases dir with
    | file => cases hdir
    | link => cases hdir
    | directory locked entries => exact ⟨locked, entries, rfl⟩
  by_cases hlen : (r.below names).isTooLong = true
  · rw [discover_eq, find_of_isTooLong h.contains_nul hlen, walk, if_pos hlen]
  · have hentry := h.findEntry (Bool.eq_false_iff.2 hlen)
    rw [discover_eq, find_of_findEntry hentry rfl]
    rfl

/-- What is met is in order, and a walk that comes to it has in hand what listing it gives. -/
theorem Leads.orderedListed (h : v.Leads p names child) :
    child.Ordered ∧ v.ListedAs (p.below names) child := by
  induction h with
  | entry hlist hmem =>
    exact ⟨(ordered_of_find (list_eq_ok_iff.1 hlist)).of_mem hmem, listedAs_join hlist hmem⟩
  | through _ _ _ _ ih => exact ih

/-- The walk of a directory that can be listed holds the walks of its entries. -/
theorem infix_walk_of_mem (hnone : f .none = []) (happend : ∀ a b, f (a ++ b) = f a ++ f b)
    (hlisted : v.ListedAs p node) (hdir : node.isDirectory = true) {es : Entries}
    (hlist : v.list p = .ok es) {entry : FileName × Node} (hmem : entry ∈ es) :
    f (v.walk (p.join entry.1.toPath) entry.2) <:+: f (v.walk p node) := by
  rw [(walk_of_list hlisted hdir hlist).2, map_walkEntries hnone happend, List.flatMap_def]
  exact List.infix_of_mem_flatten (List.mem_map_of_mem hmem)

/-- **The walk of a directory holds the walk of each node that is met below it.** -/
theorem Leads.infix_walk (hnone : f .none = []) (happend : ∀ a b, f (a ++ b) = f a ++ f b)
    (h : v.Leads p names child) (hlisted : v.ListedAs p node) (hdir : node.isDirectory = true) :
    f (v.walk (p.below names) child) <:+: f (v.walk p node) := by
  induction h generalizing node with
  | entry hlist hmem => exact infix_walk_of_mem hnone happend hlisted hdir hlist hmem
  | through hlist hmem hreal _ ih =>
    exact (ih (listedAs_join hlist hmem) hreal).trans
      (infix_walk_of_mem hnone happend hlisted hdir hlist hmem)

/-- Names lead on only from a directory, whose walk is the walk from its path. -/
theorem Leads.exists_discover (h : v.Leads r names child) : ∃ node, v.find r = .ok node ∧
    node.isDirectory = true ∧ v.discover r = v.walk r node := by
  obtain ⟨es, hlist⟩ := h.exists_list
  have hfind := list_eq_ok_iff.1 hlist
  refine ⟨_, hfind, rfl, ?_⟩
  rw [discover_eq, hfind]
  rfl

/-- **What is listed of a subtree stands side by side in the list of the whole tree.** -/
theorem Leads.infix_discover (hnone : f .none = []) (happend : ∀ a b, f (a ++ b) = f a ++ f b)
    (h : v.Leads r names dir) (hdir : dir.isDirectory = true) :
    f (v.discover (r.below names)) <:+: f (v.discover r) := by
  obtain ⟨node, hfind, hnode, hwhole⟩ := h.exists_discover
  rw [h.discover_below hdir, hwhole]
  exact h.infix_walk hnone happend (listedAs_of_find hfind) hnode

/-! ## What lies within the subtree -/

/-- What is noted down at a node is noted down under the path of the node. -/
theorem path_of_mem_visit (hf : Discovery.ListsPaths fun d => (f d).map path) {x : α}
    (hx : x ∈ f (v.visit p node)) : path x = p :=
  List.mem_singleton.1 ((sublist_visit hf).subset (List.mem_map_of_mem hx))

/-- What is listed of a tree is listed under the path of the tree or one below it. -/
theorem exists_path_of_mem_walk (hf : Discovery.ListsPaths fun d => (f d).map path)
    (hnode : node.Ordered) (hlisted : v.ListedAs p node) {x : α} (hx : x ∈ f (v.walk p node)) :
    ∃ names, path x = p.below names :=
  exists_below_of_mem_walk hf hnode hlisted (List.mem_map_of_mem hx)

/-- **What is listed of the whole tree is listed of the subtree exactly when it lies within that.**
-/
theorem Leads.mem_discover_below_iff (hnone : f .none = [])
    (happend : ∀ a b, f (a ++ b) = f a ++ f b)
    (hf : Discovery.ListsPaths fun d => (f d).map path) (h : v.Leads r names dir)
    (hdir : dir.isDirectory = true) {x : α} (hx : x ∈ f (v.discover r)) :
    (path x).isWithin (r.below names) = true ↔ x ∈ f (v.discover (r.below names)) := by
  obtain ⟨es, hlist⟩ := h.exists_list
  have hr := bytes_ne_nil_of_list hlist
  obtain ⟨node, hfind, hnode, -⟩ := h.exists_discover
  obtain ⟨hordered, hlisted⟩ := h.orderedListed
  rw [h.discover_below hdir]
  constructor
  · intro hwithin
    obtain ⟨more, hpath, hx⟩ : ∃ more, path x = r.below more ∧ (more = [] ∨
        ∃ child, v.Leads r more child ∧ x ∈ f (v.visit (r.below more) child)) := by
      rcases (mem_discover hnone happend hfind hnode).1 hx with hx | ⟨more, child, hleads, hx⟩
      · exact ⟨[], path_of_mem_visit hf hx, .inl rfl⟩
      · exact ⟨more, path_of_mem_visit hf hx, .inr ⟨child, hleads, hx⟩⟩
    rw [hpath, Path.isWithin_below_iff hr] at hwithin
    rcases hx with rfl | ⟨child, hleads, hx⟩
    · exact absurd (List.prefix_nil.1 hwithin) h.ne_nil
    · obtain ⟨more, rfl⟩ := hwithin
      rw [mem_walk hnone happend hordered hlisted]
      by_cases hmore : more = []
      · subst hmore
        rw [List.append_nil] at hleads hx
        obtain rfl := h.unique hleads
        exact .inl hx
      · rw [Path.below_append] at hx
        exact .inr ⟨hdir, more, child, h.of_append hdir hmore hleads, hx⟩
  · intro hmem
    obtain ⟨more, hpath⟩ := exists_path_of_mem_walk hf hordered hlisted hmem
    rw [hpath, ← Path.below_append, Path.isWithin_below_iff hr]
    exact List.prefix_append names more

/-- **What is listed of a subtree is the slice of the list of the whole tree that lies within the
subtree.** -/
theorem Leads.slice_discover (hnone : f .none = []) (happend : ∀ a b, f (a ++ b) = f a ++ f b)
    (hf : Discovery.ListsPaths fun d => (f d).map path) (h : v.Leads r names dir)
    (hdir : dir.isDirectory = true) :
    f (v.discover (r.below names)) <:+: f (v.discover r) ∧
      f (v.discover (r.below names)) =
        (f (v.discover r)).filter fun x => (path x).isWithin (r.below names) := by
  have hwalk := h.infix_discover hnone happend hdir
  have hnodup : (f (v.discover r)).Nodup :=
    (List.pairwise_map.1 (pairwise_discover hf)).imp fun {a b} hlt heq => by
      rw [heq] at hlt
      exact List.lt_irrefl _ hlt
  refine ⟨hwalk, (filter_eq_of_isInfix hwalk hnodup fun x hx => ?_).symm⟩
  exact h.mem_discover_below_iff hnone happend hf hdir hx

/-- The files that a walk lists are listed under themselves. -/
theorem listsPaths_map_id : Discovery.ListsPaths fun d => d.files.map id := by
  have hfiles : (fun d : Discovery => d.files.map id) = Discovery.files :=
    funext fun d => List.map_id d.files
  rw [hfiles]
  exact Discovery.listsPaths_files

/-- **The walk of a subtree is a slice of the whole walk.**  For every real directory that is met
from `r`, under the path that the walk from `r` writes for it: the walk from there finds the files
of the walk from `r` that lie below it, and they stand side by side and in the same order in the
whole walk; so do the obstacles, that of the directory itself among them.  Hence its reports are
those of the whole tree that are about it or something below it, and it passes when the whole tree
does. -/
theorem validateDirectory_subtree (v : View) (r : Path) {names : List FileName} {dir : Node}
    (h : v.Leads r names dir) (hdir : dir.isDirectory = true) :
    (v.discover (r.below names)).files <:+: (v.discover r).files ∧
    (v.discover (r.below names)).files =
      (v.discover r).files.filter (fun q => q.isWithin (r.below names)) ∧
    (v.discover (r.below names)).obstacles <:+: (v.discover r).obstacles ∧
    (v.discover (r.below names)).obstacles =
      (v.discover r).obstacles.filter (fun o => o.path.isWithin (r.below names)) ∧
    (v.validateDirectory (r.below names)).reports =
      (v.validateDirectory r).reports.filter (fun a => a.path.isWithin (r.below names)) ∧
    ((v.validateDirectory r).allValid = true →
      (v.validateDirectory (r.below names)).allValid = true) := by
  obtain ⟨hfiles, hfiles'⟩ := h.slice_discover rfl Discovery.files_append listsPaths_map_id hdir
  obtain ⟨hobstacles, hobstacles'⟩ :=
    h.slice_discover rfl Discovery.obstacles_append Discovery.listsPaths_obstacles hdir
  have hreports : (v.validateDirectory (r.below names)).reports =
      (v.validateDirectory r).reports.filter (fun a => a.path.isWithin (r.below names)) := by
    rw [reports_validateDirectory, reports_validateDirectory, List.filter_append, List.filter_map,
      List.filter_map, hfiles', hobstacles']
    congr 2
    refine List.filter_congr fun q _ => ?_
    rw [Function.comp_apply, path_validateFile]
    rfl
  refine ⟨hfiles, hfiles', hobstacles, hobstacles', hreports, fun hvalid => ?_⟩
  refine Batch.allValid_ofReports_iff.2 fun a ha => ?_
  have ha' : a ∈ (v.validateDirectory (r.below names)).reports := ha
  rw [hreports] at ha'
  exact Batch.allValid_ofReports_iff.1 hvalid a (List.mem_filter.1 ha').1

/-- A process in the root directory; there are two empty files `/r/a.sql` and `/r/src/a.sql` and a
locked directory `/r/src/src`, and nothing else but the directories above. -/
def branchedSource : View where
  files :=
    ⟨.directory false [(rootName, .directory false [(sqlName, .file false []),
      (srcName, .directory false [(sqlName, .file false []), (srcName, .directory true [])])])],
      .single (.pair (by decide) (.file false [])
        (.pair (by decide) (.file false []) (.emptyDirectory true)))⟩
  cwd := ⟨[], false⟩

/-- Of the three reports on what is below `/r`, two are those of the walk from `/r/src`: on the file
there and on the directory that cannot be listed. -/
theorem validateDirectory_subtree_branchedSource : ∃ a b c : Report,
    (branchedSource.validateDirectory ⟨[Path.slash, 0x72]⟩).reports = [a, b, c] ∧
      (branchedSource.validateDirectory srcPath).reports = [b, c] ∧
      b.path = srcPath.below [sqlName] ∧ c.path = srcPath.below [srcName] := by
  have hlist : branchedSource.list ⟨[Path.slash, 0x72]⟩ = .ok [(sqlName, .file false []),
      (srcName, .directory false [(sqlName, .file false []), (srcName, .directory true [])])] := by
    rfl
  have hleads := Leads.entry hlist (List.mem_cons_of_mem _ (List.mem_singleton_self _))
  obtain ⟨-, -, -, -, hreports, -⟩ := validateDirectory_subtree branchedSource _ hleads rfl
  refine ⟨_, _, _, rfl, hreports.trans ?_, rfl, rfl⟩
  rfl

end View

end SqlSanity
