import SqlSanity.Proofs.FileSystem.Listing

/-!
# Proofs/Discovery — a walk finds exactly the SQL files, once each, in order

A walk goes down a tree that it has in hand and lists nothing again, while `View.Leads` looks every
path up anew.  The two meet in one fact about the node that a walk stands at, `View.ListedAs`:
listing its path gives the entries of the node in hand.  The walk hands that fact on to each entry,
and so it visits exactly what is met by listing.

The paths that a walk collects are in the order of their steps, name by name, and not in the order
of their bytes: `a/x.sql` comes before `a-b.sql`.

* `View.discover_eq` — the walk from a path, by what the path leads to;
* `View.mem_walk` — a walk collects what is noted down at each node that is met;
* `View.pairwise_walk` — a walk collects in order;
* `View.steps_ne_of_mem_discover` — no path is collected as a file and as an obstacle;
* `View.discover_verdict` — what the walk from a path collects.
-/

namespace SqlSanity

/-! ## Lists of paths -/

/-- What is listed of each file and each obstacle that a walk collects is its path or nothing. -/
structure Discovery.ListsPaths (f : Discovery → List Path) : Prop where
  none : f .none = []
  append : ∀ a b, f (a ++ b) = f a ++ f b
  file : ∀ p, (f ⟨[p], []⟩).Sublist [p]
  obstacle : ∀ o, (f ⟨[], [o]⟩).Sublist [o.path]

theorem Discovery.listsPaths_files : ListsPaths Discovery.files where
  none := rfl
  append := files_append
  file _ := .refl _
  obstacle _ := List.nil_sublist _

theorem Discovery.listsPaths_obstacles : ListsPaths fun d => d.obstacles.map Obstacle.path where
  none := rfl
  append _ _ := List.map_append
  file _ := List.nil_sublist _
  obstacle _ := .refl _

namespace View

variable {v : View} {p q : Path} {node child : Node} {names : List FileName} {es : Entries}
  {e : FileError}

/-! ## What is noted down at a node -/

/-- A node that is collected under a path if its name is right: a file, or a link that does not lead
to a directory. -/
def isLeaf (v : View) (p : Path) : Node → Bool
  | .file _ _ => true
  | .link _ => !v.isDirectory p
  | .directory _ _ => false

/-- What a walk notes down at a node itself, and not below it: a leaf is collected when its name is
right, and a directory that cannot be listed is an obstacle. -/
def visit (v : View) (p : Path) (node : Node) : Discovery :=
  if node.isDirectory then
    match v.list p with
    | .ok _ => .none
    | .error e => ⟨[], [⟨p, e⟩]⟩
  else if v.isLeaf p node then collect p
  else .none

theorem mem_files_collect : q ∈ (collect p).files ↔ p.isSql = true ∧ q = p := by
  rw [collect]
  split
  · next h => simp [h]
  · next h => simp [h, Discovery.none]

theorem obstacles_collect : (collect p).obstacles = [] := by
  rw [collect]
  split <;> rfl

theorem isLeaf_of_isDirectory : ∀ {node : Node}, node.isDirectory = true → v.isLeaf p node = false
  | .directory _ _, _ => rfl

/-- Nothing is noted down at a directory that can be listed. -/
theorem visit_of_list (hdir : node.isDirectory = true) (hlist : v.list p = .ok es) :
    v.visit p node = .none := by
  rw [visit, if_pos hdir, hlist]

theorem mem_files_visit :
    q ∈ (v.visit p node).files ↔ v.isLeaf p node = true ∧ p.isSql = true ∧ q = p := by
  rw [visit]
  split
  · next hdir =>
    rw [isLeaf_of_isDirectory hdir]
    refine iff_of_false (fun hq => ?_) fun hq => nomatch hq.1
    split at hq <;> cases hq
  · split
    · next hleaf => rw [mem_files_collect, and_iff_right hleaf]
    · next hleaf => exact iff_of_false (fun hq => nomatch hq) fun hq => hleaf hq.1

theorem mem_obstacles_visit {o : Obstacle} : o ∈ (v.visit p node).obstacles ↔
    node.isDirectory = true ∧ o.path = p ∧ v.list p = .error o.error := by
  rw [visit]
  split
  · next hdir =>
    rw [and_iff_right hdir]
    split
    · next hlist =>
      refine iff_of_false (fun ho => nomatch ho) fun ho => ?_
      rw [hlist] at ho
      exact nomatch ho.2
    · next e hlist =>
      rw [hlist, List.mem_singleton, Except.error.injEq]
      constructor
      · rintro rfl
        exact ⟨rfl, rfl⟩
      · rintro ⟨rfl, rfl⟩
        rfl
  · next hdir =>
    refine iff_of_false (fun ho => ?_) fun ho => hdir ho.1
    split at ho
    · rw [obstacles_collect] at ho
      cases ho
    · cases ho

/-! ## What a walk collects -/

/-- Listing the path gives what the node in hand has, unless the node is a link. -/
def ListedAs (v : View) (p : Path) (node : Node) : Prop :=
  node.isLink = false → v.list p = if p.isTooLong then .error .nameTooLong else node.listed

/-- **What a walk has in hand is handed on**: an entry of a directory is listed as the entry that it
is. -/
theorem listedAs_join (h : v.list p = .ok es) {entry : FileName × Node} (hmem : entry ∈ es) :
    v.ListedAs (p.join entry.1.toPath) entry.2 := fun hlink =>
  (Leads.entry h hmem).list_below hlink

theorem listedAs_of_find (h : v.find p = .ok node) : v.ListedAs p node := fun _ => by
  rw [(askable_of_find h).1, list_of_find h]
  rfl

/-- The walk of a node that is no directory ends there. -/
theorem walk_of_not_isDirectory : ∀ {node : Node}, node.isDirectory = false →
    v.walk p node = v.visit p node
  | .file _ _, _ => by
    rw [walk]
    rfl
  | .link _, _ => by
    rw [walk, visit, isLeaf]
    by_cases hdir : v.isDirectory p = true
    · rw [hdir]
      rfl
    · rw [Bool.eq_false_iff.2 hdir]
      rfl

/-- The walk of a directory that cannot be listed ends there. -/
theorem walk_of_list_error : ∀ {node : Node}, v.ListedAs p node → node.isDirectory = true →
    v.list p = .error e → v.walk p node = v.visit p node
  | .directory locked entries, h, hdir, hlist => by
    have hentries := h rfl
    rw [hlist] at hentries
    rw [walk, visit, if_pos hdir, hlist]
    split
    · next hlen =>
      rw [if_pos hlen, Except.error.injEq] at hentries
      rw [hentries]
    · next hlen =>
      rw [if_neg hlen] at hentries
      rcases locked with _ | _
      · exact nomatch hentries
      · obtain rfl := Except.error.inj hentries
        rfl

/-- The walk of a directory that can be listed goes through the listing. -/
theorem walk_of_list : ∀ {node : Node}, v.ListedAs p node → node.isDirectory = true →
    v.list p = .ok es → node = .directory false es ∧ v.walk p node = v.walkEntries p es
  | .directory locked entries, h, _, hlist => by
    have hentries := h rfl
    rw [hlist] at hentries
    split at hentries
    · exact nomatch hentries
    · next hlen =>
      obtain ⟨rfl, rfl⟩ := Node.directory.inj (Node.listed_eq_ok_iff.1 hentries.symm)
      rw [walk, if_neg hlen]
      exact ⟨rfl, rfl⟩

variable {α : Type} {f : Discovery → List α}

theorem map_walkEntries (hnone : f .none = []) (happend : ∀ a b, f (a ++ b) = f a ++ f b) :
    ∀ es : Entries,
      f (v.walkEntries p es) = es.flatMap fun e => f (v.walk (p.join e.1.toPath) e.2)
  | [] => by rw [walkEntries, hnone, List.flatMap_nil]
  | e :: es => by
    rw [walkEntries, happend, map_walkEntries hnone happend es, List.flatMap_cons]

/-- **A walk collects what is noted down at each node that is met**, be it files or obstacles. -/
theorem mem_walk (hnone : f .none = []) (happend : ∀ a b, f (a ++ b) = f a ++ f b)
    (hnode : node.Ordered) (h : v.ListedAs p node) {x : α} :
    x ∈ f (v.walk p node) ↔ x ∈ f (v.visit p node) ∨
      node.isDirectory = true ∧
        ∃ names child, v.Leads p names child ∧ x ∈ f (v.visit (p.below names) child) := by
  induction hnode generalizing p with
  | file locked content =>
    rw [walk_of_not_isDirectory rfl]
    exact (or_iff_left fun hx => nomatch hx.1).symm
  | link target =>
    rw [walk_of_not_isDirectory rfl]
    exact (or_iff_left fun hx => nomatch hx.1).symm
  | @directory locked entries sorted each ih =>
    cases hlist : v.list p with
    | error e =>
      rw [walk_of_list_error h rfl hlist]
      refine (or_iff_left ?_).symm
      rintro ⟨-, names, child, hleads, -⟩
      exact not_leads hlist hleads
    | ok es =>
      obtain ⟨hes, hwalk⟩ := walk_of_list h rfl hlist
      cases hes
      have hvisit : f (v.visit p (.directory false entries)) = [] := by
        rw [visit_of_list rfl hlist, hnone]
      -- The walk hands on to each entry what it has in hand, so the induction goes through.
      have hentry : ∀ entry ∈ entries, _ := fun entry hmem =>
        ih entry hmem (listedAs_join hlist hmem)
      rw [hwalk, map_walkEntries hnone happend, hvisit, List.mem_flatMap]
      constructor
      · rintro ⟨entry, hmem, hx⟩
        refine .inr ⟨rfl, ?_⟩
        rcases (hentry entry hmem).1 hx with hx | ⟨hsub, names, child, hleads, hx⟩
        · exact ⟨[entry.1], entry.2, .entry hlist hmem, hx⟩
        · exact ⟨entry.1 :: names, child, .through hlist hmem hsub hleads, hx⟩
      · rintro (hx | ⟨-, names, child, hleads, hx⟩)
        · cases hx
        · obtain ⟨entry, hmem, ⟨rfl, rfl⟩ | ⟨hsub, rest, rfl, hrest⟩⟩ := (leads_iff hlist).1 hleads
          · exact ⟨entry, hmem, (hentry entry hmem).2 (.inl hx)⟩
          · exact ⟨entry, hmem, (hentry entry hmem).2 (.inr ⟨hsub, rest, child, hrest, hx⟩)⟩

/-! ## The order of a walk -/

variable {g : Discovery → List Path}

theorem sublist_collect (hg : Discovery.ListsPaths g) : (g (collect p)).Sublist [p] := by
  rw [collect]
  split
  · exact hg.file p
  · rw [hg.none]
    exact List.nil_sublist _

/-- A node itself is listed once at most, under the path it is met at. -/
theorem sublist_visit (hg : Discovery.ListsPaths g) : (g (v.visit p node)).Sublist [p] := by
  have hnone : (g .none).Sublist [p] := by
    rw [hg.none]
    exact List.nil_sublist _
  rw [visit]
  split
  · split
    · exact hnone
    · next e _ => exact hg.obstacle ⟨p, e⟩
  · split
    · exact sublist_collect hg
    · exact hnone

/-- What a walk lists lies below where it stands. -/
theorem exists_below_of_mem_walk (hg : Discovery.ListsPaths g) (hnode : node.Ordered)
    (h : v.ListedAs p node) (hq : q ∈ g (v.walk p node)) : ∃ names, q = p.below names := by
  rcases (mem_walk hg.none hg.append hnode h).1 hq with hq | ⟨-, names, child, -, hq⟩
  · exact ⟨[], List.mem_singleton.1 ((sublist_visit hg).subset hq)⟩
  · exact ⟨names, List.mem_singleton.1 ((sublist_visit hg).subset hq)⟩

/-- Below a name that comes first, everything comes first. -/
theorem steps_below_lt {n n' : FileName} (h : n < n') (names names' : List FileName) :
    ((p.join n.toPath).below names).steps < ((p.join n'.toPath).below names').steps := by
  rw [Path.steps_below, Path.steps_below, Path.steps_join, Path.steps_join, List.append_assoc,
    List.append_assoc, List.singleton_append, List.singleton_append]
  exact List.append_left_lt (List.cons_lt_cons_iff.2 (.inl h))

/-- **A walk lists in the order of the steps**, be it files or obstacles. -/
theorem pairwise_walk (hg : Discovery.ListsPaths g) (hnode : node.Ordered)
    (h : v.ListedAs p node) : (g (v.walk p node)).Pairwise fun a b => a.steps < b.steps := by
  have hvisit : ∀ {p : Path} {node : Node},
      (g (v.visit p node)).Pairwise fun a b => a.steps < b.steps :=
    (List.pairwise_singleton _ _).sublist (sublist_visit hg)
  induction hnode generalizing p with
  | file locked content =>
    rw [walk_of_not_isDirectory rfl]
    exact hvisit
  | link target =>
    rw [walk_of_not_isDirectory rfl]
    exact hvisit
  | @directory locked entries sorted each ih =>
    cases hlist : v.list p with
    | error e =>
      rw [walk_of_list_error h rfl hlist]
      exact hvisit
    | ok es =>
      obtain ⟨hes, hwalk⟩ := walk_of_list h rfl hlist
      cases hes
      rw [hwalk, map_walkEntries hg.none hg.append, List.pairwise_flatMap]
      refine ⟨fun entry hmem => ih entry hmem (listedAs_join hlist hmem), ?_⟩
      refine sorted.imp_of_mem fun {entry entry'} hmem hmem' hlt a ha b hb => ?_
      obtain ⟨names, rfl⟩ :=
        exists_below_of_mem_walk hg (each entry hmem) (listedAs_join hlist hmem) ha
      obtain ⟨names', rfl⟩ :=
        exists_below_of_mem_walk hg (each entry' hmem') (listedAs_join hlist hmem') hb
      exact steps_below_lt hlt names names'

/-! ## The walk from a path -/

/-- **The walk from a path, by what the path leads to**: a link at the start is followed. -/
theorem discover_eq : v.discover p = match v.find p with
    | .error e => ⟨[], [⟨p, e⟩]⟩
    | .ok node => if node.isDirectory then v.walk p node else collect p := by
  rw [discover]
  cases hentry : v.findEntry p with
  | error e => rw [find_of_findEntry_error hentry]
  | ok node =>
    cases node with
    | file locked content =>
      rw [find_of_findEntry hentry rfl]
      exact walk.eq_1 v p locked content
    | link target => rfl
    | directory locked es =>
      rw [find_of_findEntry hentry rfl]
      rfl

/-- What the walk from a directory collects. -/
theorem mem_discover {α : Type} {f : Discovery → List α} (hnone : f .none = [])
    (happend : ∀ a b, f (a ++ b) = f a ++ f b) (h : v.find p = .ok node)
    (hdir : node.isDirectory = true) {x : α} : x ∈ f (v.discover p) ↔
      x ∈ f (v.visit p node) ∨
        ∃ names child, v.Leads p names child ∧ x ∈ f (v.visit (p.below names) child) := by
  have hdiscover : v.discover p = v.walk p node := by
    rw [discover_eq, h]
    exact if_pos hdir
  rw [hdiscover, mem_walk hnone happend (ordered_of_find h) (listedAs_of_find h),
    and_iff_right hdir]

/-- The places where the walk from a directory could not go on are the directories met that cannot
be listed, and each is there with the error that listing it gives. -/
theorem mem_obstacles_discover {o : Obstacle} (h : v.find p = .ok node)
    (hdir : node.isDirectory = true) : o ∈ (v.discover p).obstacles ↔
      v.list o.path = .error o.error ∧ (o.path = p ∨ ∃ names child,
        v.Leads p names child ∧ child.isDirectory = true ∧ o.path = p.below names) := by
  rw [mem_discover rfl Discovery.obstacles_append h hdir, mem_obstacles_visit, and_iff_right hdir]
  constructor
  · rintro (⟨rfl, hlist⟩ | ⟨names, child, hleads, ho⟩)
    · exact ⟨hlist, .inl rfl⟩
    · obtain ⟨hsub, hpath, hlist⟩ := mem_obstacles_visit.1 ho
      exact ⟨hpath ▸ hlist, .inr ⟨names, child, hleads, hsub, hpath⟩⟩
  · rintro ⟨hlist, rfl | ⟨names, child, hleads, hsub, hpath⟩⟩
    · exact .inl ⟨rfl, hlist⟩
    · exact .inr ⟨names, child, hleads, mem_obstacles_visit.2 ⟨hsub, hpath, hpath ▸ hlist⟩⟩

/-- The files that the walk from a directory collects are the leaves met that have the name of an
SQL file. -/
theorem mem_files_discover (h : v.find p = .ok node) (hdir : node.isDirectory = true) :
    q ∈ (v.discover p).files ↔ ∃ names n child, v.Leads p (names ++ [n]) child ∧
      v.isLeaf q child = true ∧ Path.IsSqlName n.bytes ∧ q = p.below (names ++ [n]) := by
  have hvisit : q ∉ (v.visit p node).files := fun hq => by
    rw [mem_files_visit, isLeaf_of_isDirectory hdir] at hq
    exact nomatch hq.1
  rw [mem_discover rfl Discovery.files_append h hdir, or_iff_right hvisit]
  constructor
  · rintro ⟨names, child, hleads, hq⟩
    obtain ⟨hleaf, hsql, rfl⟩ := mem_files_visit.1 hq
    obtain ⟨front, n, rfl⟩ := hleads.exists_concat
    rw [Path.below_append] at hsql
    exact ⟨front, n, child, hleads, hleaf, Path.isSql_join_iff.1 hsql, rfl⟩
  · rintro ⟨front, n, child, hleads, hleaf, hsql, rfl⟩
    refine ⟨_, child, hleads, mem_files_visit.2 ⟨hleaf, ?_, rfl⟩⟩
    rw [Path.below_append]
    exact Path.isSql_join_iff.2 hsql

/-- The walk from a path that leads to no directory collects the path itself, when its last step is
the name of an SQL file. -/
theorem discover_of_not_isDirectory (h : v.find p = .ok node) (hdir : node.isDirectory = false) :
    v.discover p = collect p ∧
      (p.isSql = true ↔ ∃ s ∈ p.steps.getLast?, Path.IsSqlName s) := by
  constructor
  · rw [discover_eq, h]
    exact if_neg (Bool.eq_false_iff.1 hdir)
  · refine Path.isSql_iff_of_getLast? fun hdot => ?_
    rw [isDirectory_of_getLast? h hdot] at hdir
    cases hdir

/-- The walk from a path lists in the order of the steps. -/
theorem pairwise_discover (hg : Discovery.ListsPaths g) :
    (g (v.discover p)).Pairwise fun a b => a.steps < b.steps := by
  rw [discover_eq]
  split
  · next e _ => exact (List.pairwise_singleton _ _).sublist (hg.obstacle ⟨p, e⟩)
  · next node h =>
    split
    · exact pairwise_walk hg (ordered_of_find h) (listedAs_of_find h)
    · exact (List.pairwise_singleton _ _).sublist (sublist_collect hg)

theorem pairwise_files_discover :
    (v.discover p).files.Pairwise fun a b => a.steps < b.steps :=
  pairwise_discover Discovery.listsPaths_files

/-- A file that a walk collects is no place where it could not go on. -/
theorem steps_ne_of_mem_discover {o : Obstacle} (hq : q ∈ (v.discover p).files)
    (ho : o ∈ (v.discover p).obstacles) : q.steps ≠ o.path.steps := by
  rcases h : v.find p with e | node
  · rw [discover_eq, h] at hq
    exact absurd hq List.not_mem_nil
  by_cases hdir : node.isDirectory = true
  · obtain ⟨names, n, child, hleads, hleaf, -, rfl⟩ := (mem_files_discover h hdir).1 hq
    intro hsteps
    obtain ⟨-, hpath | ⟨names', child', hleads', hreal, hpath⟩⟩ :=
      (mem_obstacles_discover h hdir).1 ho
    · rw [hpath, ← Path.below_nil p] at hsteps
      exact absurd (Path.steps_below_injective hsteps) (List.concat_ne_nil n names)
    · rw [hpath] at hsteps
      obtain rfl := Path.steps_below_injective hsteps
      obtain rfl := hleads.unique hleads'
      rw [isLeaf_of_isDirectory hreal] at hleaf
      exact nomatch hleaf
  · rw [(discover_of_not_isDirectory h (Bool.eq_false_iff.2 hdir)).1, obstacles_collect] at ho
    exact absurd ho List.not_mem_nil

/-- **A walk finds exactly the SQL files, once each, in order.**  From a path that leads nowhere it
finds none, and the path is its one obstacle.  From a path that leads to no directory it finds the
path itself if that is named as an SQL file.  From a directory it finds the leaves that are met by
listing and are named as SQL files. -/
theorem discover_verdict (v : View) (r : Path) :
    (match v.find r with
      | .error e => (v.discover r).files = [] ∧ (v.discover r).obstacles.map Obstacle.report =
          [.failed r ("IO error for operation on " ++ r.display ++ ": " ++ e.message)]
      | .ok (.directory _ _) => ∀ q, q ∈ (v.discover r).files ↔
          ∃ names n node, v.Leads r (names ++ [n]) node ∧ v.isLeaf q node = true ∧
            Path.IsSqlName n.bytes ∧ q = r.below (names ++ [n])
      | .ok _ =>
          (v.discover r).files = [r] ∧ (∃ s ∈ r.steps.getLast?, Path.IsSqlName s) ∨
            (v.discover r).files = [] ∧ ¬∃ s ∈ r.steps.getLast?, Path.IsSqlName s) ∧
      (v.discover r).files.Nodup ∧
        (v.discover r).files.Pairwise fun a b => a.steps < b.steps := by
  have horder : (v.discover r).files.Pairwise fun a b => a.steps < b.steps :=
    pairwise_files_discover
  refine ⟨?_, horder.imp fun {a b} hlt heq => ?_, horder⟩
  · split
    · next e h =>
      rw [discover_eq, h]
      exact ⟨rfl, rfl⟩
    · next h => exact fun q => mem_files_discover h rfl
    · next node hopen h =>
      have hdir : node.isDirectory = false := by
        cases node with
        | file locked content => rfl
        | link target => rfl
        | directory locked es => exact absurd rfl (hopen locked es)
      obtain ⟨hdiscover, hsql⟩ := discover_of_not_isDirectory h hdir
      rw [hdiscover, collect, ← hsql]
      split
      · next h => exact .inl ⟨rfl, h⟩
      · next h => exact .inr ⟨rfl, h⟩
  · rw [heq] at hlt
    exact List.lt_irrefl _ hlt

end View

end SqlSanity
