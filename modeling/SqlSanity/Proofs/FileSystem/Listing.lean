import SqlSanity.Proofs.FileSystem.Lookup

/-!
# Proofs/FileSystem/Listing — the entries below a directory that can be listed

Listing a path looks the path up and gives the entries of the directory there, unless it is locked.
`View.Leads` says which nodes are met from a path by listing alone: the entries of the directory
there, and what is met from those of them that are directories and no links.  It knows nothing of
any walk, and every path in it is looked up on its own.

* `View.leads_iff` — what is met from a path, by its first name;
* `View.leads_concat_iff` — what is met from a path, by its last name;
* `View.Leads.unique` — names lead to one node at most;
* `View.Leads.findEntry` — what is met below a path is the entry there;
* `View.Leads.list_below` — what is met is listed as it is, unless it is too far down.
-/

namespace SqlSanity

/-- The entries that listing a node gives; a locked directory cannot be listed. -/
def Node.listed : Node → Except FileError Entries
  | directory false es => .ok es
  | directory true _ => .error .denied
  | _ => .error .notDirectory

theorem Node.listed_eq_ok_iff {es : Entries} : ∀ {node : Node},
    node.listed = .ok es ↔ node = .directory false es
  | .file _ _ => by simp [listed]
  | .link _ => by simp [listed]
  | .directory false _ => by simp [listed]
  | .directory true _ => by simp [listed]

namespace View

variable {v : View} {p q : Path} {node child : Node} {n : FileName} {names : List FileName}
  {es : Entries} {e : FileError}

/-- The entries of the directory that a path leads to. -/
def list (v : View) (p : Path) : Except FileError Entries :=
  match v.find p with
  | .error e => .error e
  | .ok node => node.listed

/-- The names lead from a path to a node, each through the listing of the directory before it, and
all but the last of them name directories that are no links. -/
inductive Leads (v : View) : Path → List FileName → Node → Prop
  | entry {p : Path} {es : Entries} {n : FileName} {node : Node} (list : v.list p = .ok es)
      (mem : (n, node) ∈ es) : Leads v p [n] node
  | through {p : Path} {es : Entries} {n : FileName} {dir node : Node} {names : List FileName}
      (list : v.list p = .ok es) (mem : (n, dir) ∈ es) (real : dir.isDirectory = true)
      (rest : Leads v (p.join n.toPath) names node) : Leads v p (n :: names) node

theorem list_of_find (h : v.find p = .ok node) : v.list p = node.listed := by
  rw [list, h]

theorem list_of_find_error (h : v.find p = .error e) : v.list p = .error e := by
  rw [list, h]

theorem list_eq_ok_iff : v.list p = .ok es ↔ v.find p = .ok (.directory false es) := by
  rcases h : v.find p with e | node
  · rw [list_of_find_error h]
    exact iff_of_false (fun h' => nomatch h') fun h' => nomatch h'
  · rw [list_of_find h, Node.listed_eq_ok_iff, Except.ok.injEq]

theorem isTooLong_of_list (h : v.list p = .ok es) : p.isTooLong = false :=
  (askable_of_find (list_eq_ok_iff.1 h)).1

theorem bytes_ne_nil_of_list (h : v.list p = .ok es) : p.bytes ≠ [] := by
  obtain ⟨t, ht, -⟩ := nodeOf_eq_ok_iff.1 (list_eq_ok_iff.1 h)
  exact List.isEmpty_eq_false_iff.1 (locate_eq_ok_iff.1 ht).2.2.1

/-- A path of no NUL byte that is too long leads nowhere. -/
theorem find_of_isTooLong (hnul : p.bytes.contains 0 = false) (hlen : p.isTooLong = true) :
    v.find p = .error .nameTooLong := by
  rw [find, locate, lookUp, hnul, hlen]
  rfl

/-! ## What is met by listing -/

/-- **What names lead to from a path that can be listed, by the first of them.** -/
theorem leads_iff (h : v.list p = .ok es) : v.Leads p names node ↔
    ∃ entry ∈ es, names = [entry.1] ∧ node = entry.2 ∨
      entry.2.isDirectory = true ∧
        ∃ rest, names = entry.1 :: rest ∧ v.Leads (p.join entry.1.toPath) rest node := by
  constructor
  · intro hleads
    rcases hleads with ⟨hlist, hmem⟩ | ⟨hlist, hmem, hreal, hrest⟩
    · rw [h, Except.ok.injEq] at hlist
      exact ⟨_, hlist ▸ hmem, .inl ⟨rfl, rfl⟩⟩
    · rw [h, Except.ok.injEq] at hlist
      exact ⟨_, hlist ▸ hmem, .inr ⟨hreal, _, rfl, hrest⟩⟩
  · rintro ⟨entry, hmem, ⟨rfl, rfl⟩ | ⟨hreal, rest, rfl, hrest⟩⟩
    · exact .entry h hmem
    · exact .through h hmem hreal hrest

/-- Nothing is met from a path that cannot be listed. -/
theorem not_leads (h : v.list p = .error e) : ¬v.Leads p names node := by
  intro hleads
  rcases hleads with ⟨hlist, -⟩ | ⟨hlist, -, -, -⟩
  · exact nomatch h.symm.trans hlist
  · exact nomatch h.symm.trans hlist

/-- Some name leads to what is met. -/
theorem Leads.ne_nil (h : v.Leads p names node) : names ≠ [] := by
  rcases h with _ | _
  · exact List.cons_ne_nil _ _
  · exact List.cons_ne_nil _ _

theorem Leads.exists_concat (h : v.Leads p names node) : ∃ front n, names = front ++ [n] :=
  ⟨names.dropLast, names.getLast h.ne_nil, (List.dropLast_concat_getLast h.ne_nil).symm⟩

/-- **Names lead to one node at most.** -/
theorem Leads.unique (h : v.Leads p names node) (h' : v.Leads p names child) : node = child := by
  induction h generalizing child with
  | entry hlist hmem =>
    obtain ⟨entry, hentry, ⟨hnames, rfl⟩ | ⟨-, rest, hnames, hrest⟩⟩ := (leads_iff hlist).1 h'
    · obtain rfl := (List.cons.inj hnames).1
      exact Entries.eq_of_mem (ordered_of_find (list_eq_ok_iff.1 hlist)).sorted hmem hentry
    · exact absurd (List.cons.inj hnames).2.symm hrest.ne_nil
  | through hlist hmem _ hleads ih =>
    obtain ⟨entry, hentry, ⟨hnames, -⟩ | ⟨-, rest, hnames, hrest⟩⟩ := (leads_iff hlist).1 h'
    · exact absurd (List.cons.inj hnames).2 hleads.ne_nil
    · obtain ⟨rfl, rfl⟩ := List.cons.inj hnames
      exact ih hrest

/-- **What is met below a path is the entry there**, unless it is too far down to be asked for. -/
theorem Leads.findEntry (h : v.Leads p names node) (hlen : (p.below names).isTooLong = false) :
    v.findEntry (p.below names) = .ok node := by
  induction h with
  | entry hlist hmem => exact findEntry_join (list_eq_ok_iff.1 hlist) hmem hlen
  | through _ _ _ _ ih => exact ih hlen

/-- What is met from a path is met from a directory that can be listed. -/
theorem Leads.exists_list (h : v.Leads p names node) : ∃ es, v.list p = .ok es := by
  cases h with
  | entry hlist => exact ⟨_, hlist⟩
  | through hlist => exact ⟨_, hlist⟩

/-- The names lead from a path to a directory that is no link, or there are none and the path itself
is meant. -/
def Enters (v : View) (p : Path) (names : List FileName) : Prop :=
  names = [] ∨ ∃ node, v.Leads p names node ∧ node.isDirectory = true

theorem Enters.nil : v.Enters p [] := .inl rfl

theorem Enters.exists_list (h : v.Enters p names) (hlist : v.list (p.below names) = .ok es) :
    ∃ es, v.list p = .ok es := by
  rcases h with rfl | ⟨node, hleads, -⟩
  · exact ⟨es, hlist⟩
  · exact hleads.exists_list

theorem enters_cons_iff : v.Enters p (n :: names) ↔ ∃ es dir, v.list p = .ok es ∧ (n, dir) ∈ es ∧
    dir.isDirectory = true ∧ v.Enters (p.join n.toPath) names := by
  constructor
  · rintro (hnil | ⟨node, hleads, hdir⟩)
    · cases hnil
    · cases hleads with
      | entry hlist hmem => exact ⟨_, node, hlist, hmem, hdir, .nil⟩
      | through hlist hmem hreal hrest => exact ⟨_, _, hlist, hmem, hreal, .inr ⟨node, hrest, hdir⟩⟩
  · rintro ⟨es, dir, hlist, hmem, hreal, rfl | ⟨node, hrest, hdir⟩⟩
    · exact .inr ⟨dir, .entry hlist hmem, hreal⟩
    · exact .inr ⟨node, .through hlist hmem hreal hrest, hdir⟩

/-- **What is met is an entry of a directory that the names before it lead to.** -/
theorem leads_concat_iff : ∀ {names : List FileName} {p : Path}, v.Leads p (names ++ [n]) node ↔
    v.Enters p names ∧ ∃ es, v.list (p.below names) = .ok es ∧ (n, node) ∈ es
  | [], p => by
    rw [and_iff_right Enters.nil]
    constructor
    · intro h
      cases h with
      | entry hlist hmem => exact ⟨_, hlist, hmem⟩
      | through _ _ _ hrest => exact absurd rfl hrest.ne_nil
    · rintro ⟨es, hlist, hmem⟩
      exact .entry hlist hmem
  | m :: names, p => by
    have ih := @leads_concat_iff names (p.join m.toPath)
    rw [enters_cons_iff]
    constructor
    · intro h
      generalize hall : m :: names ++ [n] = all at h
      cases h with
      | entry hlist hmem => simp at hall
      | through hlist hmem hreal hrest =>
        obtain ⟨rfl, rfl⟩ := List.cons.inj hall
        obtain ⟨henters, hentry⟩ := ih.1 hrest
        exact ⟨⟨_, _, hlist, hmem, hreal, henters⟩, hentry⟩
    · rintro ⟨⟨es, dir, hlist, hmem, hreal, henters⟩, hentry⟩
      exact .through hlist hmem hreal (ih.2 ⟨henters, hentry⟩)

theorem contains_nul_of_list (h : v.list p = .ok es) : p.bytes.contains 0 = false :=
  (askable_of_find (list_eq_ok_iff.1 h)).2

theorem Leads.contains_nul (h : v.Leads p names node) :
    (p.below names).bytes.contains 0 = false := by
  induction h with
  | entry hlist => exact (Path.contains_nul_join _ _).trans (contains_nul_of_list hlist)
  | through _ _ _ _ ih => exact ih

/-- **What is met is listed as it is when it is no link**, unless it is too far down. -/
theorem Leads.list_below (h : v.Leads p names node) (hlink : node.isLink = false) :
    v.list (p.below names) =
      if (p.below names).isTooLong then .error .nameTooLong else node.listed := by
  by_cases hlen : (p.below names).isTooLong = true
  · rw [if_pos hlen]
    exact list_of_find_error (find_of_isTooLong h.contains_nul hlen)
  · rw [if_neg hlen]
    exact list_of_find (find_of_findEntry (h.findEntry (Bool.eq_false_iff.2 hlen)) hlink)

end View

end SqlSanity
