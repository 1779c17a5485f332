import SqlSanity.FileSystem.Change
import SqlSanity.Proofs.FileSystem.NewEntry
import SqlSanity.Proofs.Scan.Denial

/-!
# Proofs/Scan/Creation — a new file has its own report and changes no other

A walk collects the paths of a tree in the order of their steps, so what it collects is known from
which paths are in it.  A new file adds its own path if it is named as an SQL file, and nothing
else: every other path that was met leads to what it led to, since no link on the way asks for the
file.  So one report is put between those that were there, where the order of steps has it.

* `View.Creates` — a file that no link asks for is new in a directory that a walk meets;
* `View.Creates.files_discover`, `View.Creates.obstacles_discover` — what the walk collects then;
* `View.validateDirectory_create` — the batch of a tree in which a file is created.
-/

namespace SqlSanity

/-! ## Lists in the order of steps -/

namespace Path

variable {ps qs : List Path} {p : Path}

/-- **A list in the order of steps is known by its members.** -/
theorem eq_of_pairwise_steps {α : Type} {path : α → Path} {as bs : List α}
    (has : as.Pairwise fun a b => (path a).steps < (path b).steps)
    (hbs : bs.Pairwise fun a b => (path a).steps < (path b).steps) (h : ∀ a, a ∈ as ↔ a ∈ bs) :
    as = bs := by
  have hne : ∀ {a b : α}, (path a).steps < (path b).steps → a ≠ b := fun hlt heq =>
    List.lt_irrefl _ (heq ▸ hlt)
  have hasymm : ∀ {a b : α}, (path a).steps < (path b).steps → ¬(path b).steps < (path a).steps :=
    fun hlt hlt' => List.lt_irrefl _ (List.lt_trans hlt hlt')
  refine List.Perm.eq_of_pairwise (fun a b _ _ hab hba => (hasymm hab hba).elim) has hbs ?_
  exact (List.perm_ext_iff_of_nodup (has.imp hne) (hbs.imp hne)).2 h

/-- A list in the order of steps that has one member more has it where the order has it. -/
theorem exists_split_of_pairwise_steps (hps : ps.Pairwise fun a b => a.steps < b.steps)
    (hqs : qs.Pairwise fun a b => a.steps < b.steps) (hp : p ∉ ps)
    (h : ∀ q, q ∈ qs ↔ q ∈ ps ∨ q = p) :
    ∃ front back, ps = front ++ back ∧ qs = front ++ p :: back ∧
      (∀ q ∈ front, q.steps < p.steps) ∧ ∀ q ∈ back, p.steps < q.steps := by
  obtain ⟨front, back, rfl⟩ := List.append_of_mem ((h p).2 (.inr rfl))
  obtain ⟨hfront, hback, hlt⟩ := List.pairwise_append.1 hqs
  obtain ⟨hpback, hback⟩ := List.pairwise_cons.1 hback
  have hpfront : ∀ q ∈ front, q.steps < p.steps := fun q hq => hlt q hq p List.mem_cons_self
  refine ⟨front, back, @eq_of_pairwise_steps _ id _ _ hps ?_ fun q => ?_, rfl, hpfront, hpback⟩
  · exact List.pairwise_append.2 ⟨hfront, hback, fun a ha b hb =>
      hlt a ha b (List.mem_cons_of_mem _ hb)⟩
  · by_cases hqp : q = p
    · subst hqp
      refine iff_of_false hp fun hmem => ?_
      rcases List.mem_append.1 hmem with hmem | hmem
      · exact List.lt_irrefl _ (hpfront q hmem)
      · exact List.lt_irrefl _ (hpback q hmem)
    · have hq := h q
      simpa [hqp] using hq.symm

end Path

namespace View

variable {v : View} {x : NewFile} {p q r : Path} {t : Trail} {names : List FileName}
  {node : Node} {way : WayDown} {es : Entries}

/-! ## A file in a directory that is met -/

theorem FindsSame.validateFile (h : v.FindsSame x p) :
    (v.add x).validateFile p = v.validateFile p := by
  rw [View.validateFile, View.validateFile, readSource, readSource, h.read]

/-- The file is new in the directory that the names lead to from the start of a walk, and no link
that the walk meets asks for it. -/
structure Creates (v : View) (x : NewFile) (r : Path) (names : List FileName) : Prop where
  fits : x.Fits v.files.root
  way : ∃ u steps, v.Way r u steps
  tracks : ∃ t, v.Tracks x r t ∧ t.place ++ names = x.place
  enters : v.Enters r names
  fresh : ∃ es, v.list (r.below names) = .ok es ∧ ∀ e ∈ es, e.1 ≠ x.name
  links : ∀ (more : List FileName) (target : Path), v.Leads r more (.link target) →
    ¬v.LooksUp (r.below more) x.place x.name.bytes

namespace Creates

variable {more : List FileName}

/-- **What is met leads to what it led to.** -/
theorem findsSame (h : v.Creates x r names) (hleads : v.Leads r more node) :
    v.FindsSame x (r.below more) := by
  by_cases hlen : (r.below more).isTooLong = true
  · refine ⟨none, ?_⟩
    rw [find_of_isTooLong hleads.contains_nul hlen, find_of_isTooLong hleads.contains_nul hlen]
    rfl
  · have hlen := Bool.eq_false_iff.2 hlen
    by_cases hlink : node.isLink = true
    · obtain ⟨target, rfl⟩ := Node.exists_of_isLink hlink
      obtain ⟨u, steps, hway⟩ := h.way
      obtain ⟨es, hlist⟩ := hleads.exists_list
      obtain ⟨steps', hbelow⟩ := hway.below (bytes_ne_nil_of_list hlist)
      exact hbelow.findsSame h.fits (h.links more target hleads)
    · obtain ⟨t, htracks, -⟩ := h.tracks
      obtain ⟨u, hu⟩ := htracks.below h.fits hleads (Bool.eq_false_iff.2 hlink) hlen
      exact hu.findsSame

/-- The file is met. -/
theorem leads_new (h : v.Creates x r names) : (v.add x).Leads r (names ++ [x.name]) x.toNode := by
  obtain ⟨t, htracks, hplace⟩ := h.tracks
  obtain ⟨es, hlist, -⟩ := h.fresh
  exact htracks.leads_new h.fits h.enters hlist hplace

/-- What is met once the file is there was met before, or is the file. -/
theorem of_leads_add (h : v.Creates x r names) (hleads : (v.add x).Leads r more node) :
    (∃ way child, v.Leads r more child ∧ node = x.grow way child) ∨
      more = names ++ [x.name] ∧ node = x.toNode := by
  obtain ⟨t, htracks, hplace⟩ := h.tracks
  rcases htracks.of_leads_add h.fits hleads with hbefore | ⟨front, rfl, hfront, rfl⟩
  · exact .inl hbefore
  · obtain rfl := List.append_cancel_left (hfront.trans hplace.symm)
    exact .inr ⟨rfl, rfl⟩

/-- What was met is met once the file is there. -/
theorem leads_add (h : v.Creates x r names) (hleads : v.Leads r more node) :
    ∃ way, (v.add x).Leads r more (x.grow way node) := by
  obtain ⟨t, htracks, -⟩ := h.tracks
  exact htracks.leads_add h.fits hleads

/-- The walk starts at a directory that can be listed, before and after. -/
theorem exists_start (h : v.Creates x r names) : ∃ es es',
    v.find r = .ok (.directory false es) ∧ (v.add x).find r = .ok (.directory false es') := by
  obtain ⟨_, hlist, -⟩ := h.fresh
  obtain ⟨es, hlist⟩ := h.enters.exists_list hlist
  obtain ⟨t, htracks, -⟩ := h.tracks
  exact ⟨es, _, list_eq_ok_iff.1 hlist, list_eq_ok_iff.1 (htracks.list_add hlist)⟩

/-- A leaf that was met is one still, and what is a leaf then was one. -/
theorem isLeaf_iff (h : v.Creates x r names) (hleads : v.Leads r more node) :
    (v.add x).isLeaf (r.below more) (x.grow way node) = v.isLeaf (r.below more) node := by
  cases node with
  | file locked content => rw [NewFile.grow_file]; rfl
  | link target =>
    rw [NewFile.grow_link, isLeaf, isLeaf, (h.findsSame hleads).isDirectory]
  | directory locked es => rw [NewFile.grow_directory]; rfl

/-- **The walk collects what it collected, and the file** if that is named as an SQL file. -/
theorem mem_files_iff (h : v.Creates x r names) : q ∈ ((v.add x).discover r).files ↔
    q ∈ (v.discover r).files ∨ q = r.below (names ++ [x.name]) ∧ Path.IsSqlName x.name.bytes := by
  obtain ⟨es, es', hfind, hfind'⟩ := h.exists_start
  rw [mem_files_discover hfind rfl, mem_files_discover hfind' rfl]
  constructor
  · rintro ⟨front, n, node', hleads, hleaf, hnamed, rfl⟩
    rcases h.of_leads_add hleads with ⟨way, node, hbefore, rfl⟩ | ⟨hpath, rfl⟩
    · rw [h.isLeaf_iff hbefore] at hleaf
      exact .inl ⟨front, n, node, hbefore, hleaf, hnamed, rfl⟩
    · obtain ⟨rfl, hname⟩ := List.append_inj' hpath rfl
      obtain rfl := List.singleton_inj.1 hname
      exact .inr ⟨rfl, hnamed⟩
  · rintro (⟨front, n, node, hleads, hleaf, hnamed, rfl⟩ | ⟨rfl, hnamed⟩)
    · obtain ⟨way, hleads'⟩ := h.leads_add hleads
      exact ⟨front, n, _, hleads', (h.isLeaf_iff hleads).trans hleaf, hnamed, rfl⟩
    · exact ⟨names, x.name, _, h.leads_new, rfl, hnamed, rfl⟩

/-- **The walk has the obstacles that it had.** -/
theorem obstacles_discover (h : v.Creates x r names) :
    ((v.add x).discover r).obstacles = (v.discover r).obstacles := by
  have hpairwise {w : View} : (w.discover r).obstacles.Pairwise fun a b =>
      a.path.steps < b.path.steps := by
    have hmap : ((w.discover r).obstacles.map Obstacle.path).Pairwise fun a b =>
        a.steps < b.steps := pairwise_discover Discovery.listsPaths_obstacles
    rwa [List.pairwise_map] at hmap
  obtain ⟨es, es', hfind, hfind'⟩ := h.exists_start
  obtain ⟨t, htracks, -⟩ := h.tracks
  refine Path.eq_of_pairwise_steps hpairwise hpairwise fun o => ?_
  rw [mem_obstacles_discover hfind rfl, mem_obstacles_discover hfind' rfl]
  constructor
  · rintro ⟨hlist, hpath | ⟨more, child', hleads, hdir, hpath⟩⟩
    · rw [hpath] at hlist ⊢
      exact ⟨htracks.findsSame.list_error_iff.1 hlist, .inl rfl⟩
    · rcases h.of_leads_add hleads with ⟨way, child, hbefore, rfl⟩ | ⟨-, rfl⟩
      · rw [NewFile.isDirectory_grow] at hdir
        rw [hpath] at hlist ⊢
        exact ⟨(h.findsSame hbefore).list_error_iff.1 hlist, .inr ⟨more, child, hbefore, hdir, rfl⟩⟩
      · cases hdir
  · rintro ⟨hlist, hpath | ⟨more, child, hleads, hdir, hpath⟩⟩
    · rw [hpath] at hlist ⊢
      exact ⟨htracks.findsSame.list_error_iff.2 hlist, .inl rfl⟩
    · obtain ⟨way, hafter⟩ := h.leads_add hleads
      rw [hpath] at hlist ⊢
      exact ⟨(h.findsSame hleads).list_error_iff.2 hlist,
        .inr ⟨more, _, hafter, NewFile.isDirectory_grow.trans hdir, rfl⟩⟩

/-- No file was met at the path of the new one. -/
theorem not_mem_files (h : v.Creates x r names) :
    r.below (names ++ [x.name]) ∉ (v.discover r).files := by
  intro hmem
  obtain ⟨es, -, hfind, -⟩ := h.exists_start
  obtain ⟨front, n, node, hleads, -, -, hpath⟩ := (mem_files_discover hfind rfl).1 hmem
  obtain ⟨rfl, hname⟩ := List.append_inj' (Path.below_injective hpath) rfl
  obtain rfl := List.singleton_inj.1 hname
  obtain ⟨es, hlist, hfresh⟩ := h.fresh
  obtain ⟨-, es', hlist', hentry⟩ := leads_concat_iff.1 hleads
  obtain rfl := Except.ok.inj (hlist.symm.trans hlist')
  exact hfresh _ hentry rfl

/-- **The walk collects the file where the order of steps has it.** -/
theorem exists_files_discover (h : v.Creates x r names) (hnamed : Path.IsSqlName x.name.bytes) :
    ∃ front back, (v.discover r).files = front ++ back ∧
      ((v.add x).discover r).files = front ++ r.below (names ++ [x.name]) :: back ∧
      (∀ q ∈ front, q.steps < (r.below (names ++ [x.name])).steps) ∧
      ∀ q ∈ back, (r.below (names ++ [x.name])).steps < q.steps := by
  refine Path.exists_split_of_pairwise_steps pairwise_files_discover pairwise_files_discover
    h.not_mem_files fun q => ?_
  rw [h.mem_files_iff, and_iff_left hnamed]

/-- A file with another name is not collected. -/
theorem files_discover (h : v.Creates x r names) (hnamed : ¬Path.IsSqlName x.name.bytes) :
    ((v.add x).discover r).files = (v.discover r).files := by
  refine @Path.eq_of_pairwise_steps _ id _ _ pairwise_files_discover pairwise_files_discover
    fun q => ?_
  rw [h.mem_files_iff]
  exact or_iff_left fun hq => hnamed hq.2

/-- The files that the walk collected are reported on as they were. -/
theorem map_validateFile (h : v.Creates x r names) {files : List Path}
    (hfiles : ∀ q ∈ files, q ∈ (v.discover r).files) :
    files.map (v.add x).validateFile = files.map v.validateFile := by
  refine List.map_congr_left fun q hq => ?_
  obtain ⟨es, -, hfind, -⟩ := h.exists_start
  obtain ⟨front, n, node, hleads, -, -, rfl⟩ := (mem_files_discover hfind rfl).1 (hfiles q hq)
  exact (h.findsSame hleads).validateFile

/-- The file is read as it was written. -/
theorem read_new (h : v.Creates x r names)
    (hlen : (r.below (names ++ [x.name])).isTooLong = false) :
    (v.add x).read (r.below (names ++ [x.name])) = .ok x.content := by
  have hfind := find_of_findEntry (h.leads_new.findEntry hlen) rfl
  rw [read, hfind]
  rfl

end Creates

/-- What is created under a new name of a directory that is met, and no link asks for, is new in
it. -/
theorem creates_of_locate {n : FileName} (content : Bytes) (hr : ¬v.IsRemoved r)
    (henters : v.Enters r names) (hlist : v.list (r.below names) = .ok es)
    (hat : v.locate true (r.below names) = .ok (.there t)) (hfresh : ∀ e ∈ es, e.1 ≠ n)
    (hlinks : ∀ more target, v.Leads r more (.link target) →
      ¬v.LooksUp (r.below more) t.place n.bytes) :
    v.Creates ⟨t.place, n, content⟩ r names := by
  obtain ⟨u, steps, hway⟩ := exists_way hat fun h => hr h.of_below
  have hfits : NewFile.Fits ⟨t.place, n, content⟩ v.files.root :=
    .into (hway.stands_of_locate hat).2 rfl (here_of_list hat hlist) hfresh
  obtain ⟨es', hstart⟩ := henters.exists_list hlist
  obtain ⟨t', ht', -⟩ := nodeOf_eq_ok_iff.1 (list_eq_ok_iff.1 hstart)
  obtain ⟨u', steps', hway'⟩ := exists_way ht' hr
  obtain ⟨t'', ht'', hplace⟩ := exists_locate_below ht' henters hlist
  obtain rfl : t'' = t := by
    cases ht''.symm.trans hat
    rfl
  exact ⟨hfits, ⟨u', steps', hway'⟩, ⟨t', hway'.tracks hfits ht', hplace.symm⟩, henters,
    ⟨es, hlist, hfresh⟩, hlinks⟩

/-! ## The batch of a tree -/

theorem allValid_validateDirectory :
    (v.validateDirectory r).allValid = (v.validateDirectory r).reports.all Report.isValid := rfl

/-- The reports of files stand in the order that the files have. -/
theorem forall_path_validateFile {P : Path → Prop} {files : List Path} (h : ∀ q ∈ files, P q) :
    ∀ a ∈ files.map v.validateFile, P a.path := by
  intro a ha
  obtain ⟨q, hq, rfl⟩ := List.mem_map.1 ha
  rw [path_validateFile]
  exact h q hq

namespace Creates

/-- **The batch has the report on the file besides**, where the order of steps has it among the
reports on files. -/
theorem exists_reports (h : v.Creates x r names) (hnamed : Path.IsSqlName x.name.bytes) :
    ∃ before files : List Report,
      (v.validateDirectory r).reports =
        before ++ (files ++ (v.discover r).obstacles.map Obstacle.report) ∧
      ((v.add x).validateDirectory r).reports =
        before ++ (v.add x).validateFile (r.below (names ++ [x.name])) ::
          (files ++ (v.discover r).obstacles.map Obstacle.report) ∧
      (∀ a ∈ before, a.path.steps < (r.below (names ++ [x.name])).steps) ∧
      ∀ a ∈ files, (r.below (names ++ [x.name])).steps < a.path.steps := by
  obtain ⟨front, back, hfiles, hfiles', hfront, hback⟩ := h.exists_files_discover hnamed
  have hsame : ∀ q ∈ front ++ back, q ∈ (v.discover r).files := fun q hq => hfiles ▸ hq
  refine ⟨front.map v.validateFile, back.map v.validateFile, ?_, ?_,
    forall_path_validateFile hfront, forall_path_validateFile hback⟩
  · rw [reports_validateDirectory, hfiles, List.map_append, List.append_assoc]
  · rw [reports_validateDirectory, hfiles', h.obstacles_discover, List.map_append, List.map_cons,
      h.map_validateFile fun q hq => hsame q (List.mem_append_left _ hq),
      h.map_validateFile fun q hq => hsame q (List.mem_append_right _ hq), List.append_assoc,
      List.cons_append]

/-- The batch is as it was if the file is not named as an SQL file. -/
theorem validateDirectory_eq (h : v.Creates x r names) (hnamed : ¬Path.IsSqlName x.name.bytes) :
    (v.add x).validateDirectory r = v.validateDirectory r := by
  rw [validateDirectory, validateDirectory, h.files_discover hnamed, h.obstacles_discover,
    h.map_validateFile fun q hq => hq]

end Creates

/-- A batch with one report more is valid when it was and the report is. -/
theorem allValid_of_reports {w : View} {before after : List Report} {a : Report}
    (h : (v.validateDirectory r).reports = before ++ after)
    (h' : (w.validateDirectory r).reports = before ++ a :: after) :
    (w.validateDirectory r).allValid = ((v.validateDirectory r).allValid && a.isValid) := by
  rw [allValid_validateDirectory, allValid_validateDirectory, h, h', List.all_append,
    List.all_append, List.all_cons, Bool.and_comm (Report.isValid _), Bool.and_assoc]

/-- **Creating a file changes only its own report.**  The file gets a new name in a directory that
the walk meets and lists, and no link that the walk meets asks for it; the start of the walk is not
a working directory that has been removed, in which nothing can be created. -/
theorem validateDirectory_create {v : View} {r : Path} {names : List FileName} {t : Trail}
    {es : Entries} {n : FileName} (content : Bytes) (hr : ¬v.IsRemoved r)
    (henters : v.Enters r names) (hlist : v.list (r.below names) = .ok es)
    (hat : v.locate true (r.below names) = .ok (.there t)) (hfresh : ∀ e ∈ es, e.1 ≠ n)
    (hlinks : ∀ more target, v.Leads r more (.link target) →
      ¬v.LooksUp (r.below more) t.place n.bytes) :
    ∃ w, v.create t n.bytes (.file false content) (.file false content) = .ok w ∧
      (((r.below names).join n.toPath).isTooLong = false →
        v.writeFile ((r.below names).join n.toPath) content = .ok w ∧
          w.read ((r.below names).join n.toPath) = .ok content) ∧
      (Path.IsSqlName n.bytes → ∃ before after : List Report,
        (v.validateDirectory r).reports = before ++ after ∧
        (w.validateDirectory r).reports =
          before ++ w.validateFile ((r.below names).join n.toPath) :: after ∧
        (w.validateDirectory r).allValid = ((v.validateDirectory r).allValid &&
          (w.validateFile ((r.below names).join n.toPath)).isValid) ∧
        (∀ a ∈ before, a.path.steps < ((r.below names).join n.toPath).steps) ∧
        ∃ files, after = files ++ (v.discover r).obstacles.map Obstacle.report ∧
          ∀ a ∈ files, ((r.below names).join n.toPath).steps < a.path.steps) ∧
      (¬Path.IsSqlName n.bytes → w.validateDirectory r = v.validateDirectory r) := by
  have h := creates_of_locate content hr henters hlist hat hfresh hlinks
  have hpath : (r.below names).join n.toPath = r.below (names ++ [n]) := by
    rw [Path.below_append, Path.below_cons, Path.below_nil]
  refine ⟨v.add ⟨t.place, n, content⟩, create_eq_ok t n content, fun hlen => ⟨?_, ?_⟩,
    fun hnamed => ?_, h.validateDirectory_eq⟩
  · rw [writeFile_join hat hlist hfresh hlen, create_eq_ok]
  · rw [hpath] at hlen ⊢
    exact h.read_new hlen
  · rw [hpath]
    obtain ⟨before, files, hreports, hreports', hbefore, hfiles⟩ := h.exists_reports hnamed
    exact ⟨before, _, hreports, hreports', allValid_of_reports hreports hreports', hbefore, files,
      rfl, hfiles⟩

/-- The name `b.sql`. -/
def laterName : FileName := ⟨[0x62, 0x2e, 0x73, 0x71, 0x6c], by decide⟩

/-- The trail to `/r/src` where that holds a link to a name that is not there. -/
def danglingTrail : Trail :=
  [(srcName, .directory false [(sqlName, .link ⟨[0x62]⟩)]),
    (rootName, .directory false [(srcName, .directory false [(sqlName, .link ⟨[0x62]⟩)])])]

/-- The link in `/r/src` asks for the name `b` and not for `b.sql`. -/
theorem not_looksUp_danglingSource :
    ¬danglingSource.LooksUp (srcPath.below [sqlName]) danglingTrail.place laterName.bytes := by
  rintro ⟨t, hstart, hlooks⟩
  obtain rfl : [] = t := Option.some.inj hstart
  -- The walk comes to the link and goes on at the target; no step of either is the name.
  cases hlooks with
  | here hasks =>
    obtain ⟨before, after, -, hsteps, -⟩ := hasks
    have hmem : laterName.bytes ∈ (srcPath.below [sqlName]).steps :=
      hsteps ▸ List.mem_append_right _ List.mem_cons_self
    exact absurd hmem (by decide)
  | link hwalk hne hnext =>
    cases hwalk
    cases hnext with
    | here hasks =>
      obtain ⟨before, after, -, hsteps, -⟩ := hasks
      have hmem : laterName.bytes ∈ [[0x62]] ++ [] :=
        hsteps ▸ List.mem_append_right _ List.mem_cons_self
      exact absurd hmem (by decide)
    | link hwalk hne hnext => cases hwalk

/-- A file `b.sql` that is written beside that link has its report behind that of the link. -/
theorem validateDirectory_create_danglingSource : ∃ w before after,
    danglingSource.writeFile (srcPath.join laterName.toPath) [0x78] = .ok w ∧
      w.read (srcPath.join laterName.toPath) = .ok [0x78] ∧
      (danglingSource.validateDirectory srcPath).reports = before ++ after ∧
      (w.validateDirectory srcPath).reports =
        before ++ w.validateFile (srcPath.join laterName.toPath) :: after := by
  have hlist : danglingSource.list srcPath = .ok [(sqlName, .link ⟨[0x62]⟩)] := by rfl
  have hlinks : ∀ more target, danglingSource.Leads srcPath more (.link target) →
      ¬danglingSource.LooksUp (srcPath.below more) danglingTrail.place laterName.bytes := by
    intro more target hleads
    obtain ⟨entry, hentry, ⟨rfl, -⟩ | ⟨hdir, -⟩⟩ := (leads_iff hlist).1 hleads
    · obtain rfl := List.mem_singleton.1 hentry
      exact not_looksUp_danglingSource
    · obtain rfl := List.mem_singleton.1 hentry
      cases hdir
  have hfresh : ∀ e ∈ [(sqlName, Node.link ⟨[0x62]⟩)], e.1 ≠ laterName := by
    intro e he
    obtain rfl := List.mem_singleton.1 he
    exact fun h => absurd (congrArg FileName.bytes h) (by decide)
  obtain ⟨w, -, hwrite, hsql, -⟩ := @validateDirectory_create danglingSource srcPath []
    danglingTrail _ laterName [0x78] (fun h => nomatch h.1) .nil hlist (by rfl) hfresh hlinks
  obtain ⟨hw, hread⟩ := hwrite (by rfl)
  obtain ⟨before, after, hreports, hreports', -⟩ := hsql ⟨[0x62], List.cons_ne_nil _ _, rfl⟩
  exact ⟨w, before, after, hw, hread, hreports, hreports'⟩

end View

end SqlSanity
