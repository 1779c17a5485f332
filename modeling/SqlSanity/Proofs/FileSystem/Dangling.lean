import SqlSanity.Proofs.FileSystem.Listing

/-!
# Proofs/FileSystem/Dangling — which lookups end at a name that is not there

A lookup has no entry to give exactly when it comes to a directory, over links or not, that lacks
the name of the next step.  `FileSystem.Dangles` says where that happens, one link at a time and
within the number of links that a lookup follows; it asks the file system for directories and names
only.  A link to the empty path counts as one to a name that is not there.

* `Trail.walk_cons_cases` — all that one step of a walk can do;
* `FileSystem.misses_follow_iff` — a lookup ends at a missing name exactly when its steps dangle;
* `View.find_eq_noEntry_iff` — so does the lookup of a path that has an entry of its own;
* `View.find_ne_isDirectory` — no lookup fails at a directory for being one.
-/

namespace SqlSanity

namespace Trail

variable {root : Node} {t : Trail} {b : Bytes} {steps : List Bytes}

/-! ## One step -/

/-- The trail ends at a directory that can be passed through and has no entry of this name. -/
def Lacks (root : Node) (t : Trail) (b : Bytes) : Prop :=
  ∃ es, here root t = .directory false es ∧ Entries.find es b = none ∧
    b ≠ [Path.dot] ∧ b ≠ [Path.dot, Path.dot] ∧ b.length ≤ 255

/-- The errors that end a walk at what is there. -/
def blocks : List FileError := [.denied, .nameTooLong, .notDirectory]

/-- A walk ends at a name that is not there. -/
theorem walk_of_lacks (h : Lacks root t b) (rest : List Bytes) :
    walk root t (b :: rest) = if rest.isEmpty then .absent t b else .failed .noEntry := by
  obtain ⟨es, hdir, hfind, hdot, hdots, hlen⟩ := h
  rw [walk, hdir]
  simp only [beq_eq_false_iff_ne.2 hdot, beq_eq_false_iff_ne.2 hdots, Nat.not_lt.2 hlen, hfind,
    Bool.false_eq_true, if_false]

/-- **All that one step of a walk can do**: go on from some trail, stop at a link, come to a name
that is not there, or be blocked. -/
theorem walk_cons_cases (root : Node) (t : Trail) (b : Bytes) :
    (∃ t₁, ∀ rest, walk root t (b :: rest) = walk root t₁ rest) ∨
      (∃ name target, ∀ rest, walk root t (b :: rest) = .link t name target rest) ∨
      Lacks root t b ∨
      ∃ e ∈ blocks, ∀ rest, walk root t (b :: rest) = .failed e := by
  rcases hdir : here root t with ⟨locked, content⟩ | target | ⟨_ | _, es⟩
  · exact .inr (.inr (.inr ⟨.notDirectory, by simp [blocks], fun rest => by rw [walk, hdir]⟩))
  · exact .inr (.inr (.inr ⟨.notDirectory, by simp [blocks], fun rest => by rw [walk, hdir]⟩))
  · rcases hfind : Entries.find es b with _ | ⟨name, node⟩
    · by_cases hdot : b = [Path.dot]
      · exact .inl ⟨t, fun rest => by simp [walk, hdir, hdot]⟩
      by_cases hdots : b = [Path.dot, Path.dot]
      · exact .inl ⟨t.tail, fun rest => by simp [walk, hdir, hdots, Path.dot]⟩
      by_cases hlen : 255 < b.length
      · refine .inr (.inr (.inr ⟨.nameTooLong, by simp [blocks], fun rest => ?_⟩))
        simp [walk, hdir, hdot, hdots, hlen]
      exact .inr (.inr (.inl ⟨es, hdir, hfind, hdot, hdots, Nat.not_lt.1 hlen⟩))
    · obtain rfl : name.bytes = b := (Entries.mem_of_find hfind).2
      rcases node with ⟨locked, content⟩ | target | ⟨locked, entries⟩
      · exact .inl ⟨_, fun rest => walk_name hdir hfind⟩
      · exact .inr (.inl ⟨name, target, fun rest => walk_name hdir hfind⟩)
      · exact .inl ⟨_, fun rest => walk_name hdir hfind⟩
  · exact .inr (.inr (.inr ⟨.denied, by simp [blocks], fun rest => by rw [walk, hdir]⟩))

/-! ## A walk -/

/-- A walk that stops for want of an entry. -/
def Stop.IsMissing : Stop → Prop
  | .absent _ _ => True
  | .failed e => e = .noEntry
  | .there _ | .link _ _ _ _ => False

/-- **A walk stops for want of an entry exactly when some step of it asks for a name that is not
there.** -/
theorem isMissing_walk_iff : (walk root t steps).IsMissing ↔ ∃ before b after t',
    steps = before ++ b :: after ∧ walk root t before = .there t' ∧ Lacks root t' b := by
  constructor
  · intro h
    induction steps generalizing t with
    | nil => exact h.elim
    | cons b rest ih =>
      rcases walk_cons_cases root t b with
        ⟨t₁, hgo⟩ | ⟨name, target, hlink⟩ | hlacks | ⟨e, he, hstop⟩
      · rw [hgo] at h
        obtain ⟨before, b', after, t', rfl, hwalk, hlacks⟩ := ih h
        exact ⟨b :: before, b', after, t', rfl, (hgo before).trans hwalk, hlacks⟩
      · rw [hlink] at h
        exact h.elim
      · exact ⟨[], b, rest, t, rfl, rfl, hlacks⟩
      · rw [hstop] at h
        obtain rfl : e = .noEntry := h
        exact absurd he (by decide)
  · rintro ⟨before, b, after, t', rfl, hwalk, hlacks⟩
    rw [walk_append (List.cons_ne_nil b after), hwalk]
    change (walk root t' (b :: after)).IsMissing
    rw [walk_of_lacks hlacks]
    split
    · trivial
    · rfl

/-- A walk does not fail at a directory for being one. -/
theorem walk_ne_isDirectory : walk root t steps ≠ .failed .isDirectory := by
  induction steps generalizing t with
  | nil => simp [walk]
  | cons b rest ih =>
    rcases walk_cons_cases root t b with ⟨t₁, hgo⟩ | ⟨name, target, hlink⟩ | hlacks | ⟨e, he, hstop⟩
    · rw [hgo]
      exact ih
    · rw [hlink]
      simp
    · rw [walk_of_lacks hlacks]
      split <;> simp
    · rw [hstop]
      intro h
      obtain rfl := Stop.failed.inj h
      exact absurd he (by decide)

end Trail

/-! ## A lookup -/

namespace FileSystem

variable {fs : FileSystem} {only : Bool} {links : Nat} {t : Trail} {steps : List Bytes}

/-- Some steps from a trail lead to a name that is not there, over at most so many links: the walk
along them comes to it before any link, or the target of the first link and the steps after it lead
to one in turn. -/
inductive Dangles (fs : FileSystem) : Nat → Trail → List Bytes → Prop
  | missing {links : Nat} {t t' : Trail} {before after : List Bytes} {b : Bytes}
      (walk : t.walk fs.root before = .there t') (lacks : Trail.Lacks fs.root t' b) :
      Dangles fs links t (before ++ b :: after)
  | nowhere {links : Nat} {t t' : Trail} {name : FileName} {target : Path}
      {steps rest : List Bytes} (walk : t.walk fs.root steps = .link t' name target rest)
      (empty : target.bytes.isEmpty = true) : Dangles fs links t steps
  | link {links : Nat} {t t' : Trail} {name : FileName} {target : Path}
      {steps rest : List Bytes} (walk : t.walk fs.root steps = .link t' name target rest)
      (target_ne : target.bytes.isEmpty = false)
      (dangles : Dangles fs links (linkStart target t') (target.steps ++ rest)) :
      Dangles fs (links + 1) t steps

/-- A lookup that ends for want of an entry. -/
def Misses : Except FileError Found → Prop
  | .ok (.absent _ _) => True
  | .ok (.there _) => False
  | .error e => e = .noEntry

/-- A lookup whose walk stops for want of an entry ends there. -/
theorem misses_follow_of_walk (h : (t.walk fs.root steps).IsMissing) :
    Misses (fs.follow true links only t steps) := by
  rw [follow]
  generalize t.walk fs.root steps = stop at h
  cases stop with
  | there t => exact h.elim
  | link t name target rest => exact h.elim
  | absent t name => trivial
  | failed e => exact h

/-- **A lookup ends for want of an entry exactly when its steps lead to a name that is not
there.** -/
theorem misses_follow_iff :
    Misses (fs.follow true links only t steps) ↔ fs.Dangles links t steps := by
  constructor
  · intro h
    -- On the links that may still be followed: each one starts a walk of its own.
    induction links using Nat.strongRecOn generalizing only t steps with
    | _ links ih =>
      by_cases hmissing : (t.walk fs.root steps).IsMissing
      · obtain ⟨before, b, after, t', rfl, hwalk, hlacks⟩ := Trail.isMissing_walk_iff.1 hmissing
        exact .missing hwalk hlacks
      rw [follow] at h
      split at h
      · next e hwalk =>
        rw [hwalk] at hmissing
        exact absurd h hmissing
      · next hwalk =>
        rw [hwalk] at hmissing
        exact absurd trivial hmissing
      · split at h
        · cases h
        · exact h.elim
      · next t' name target rest hwalk =>
        rw [Bool.not_true, Bool.and_false, Bool.false_and, if_neg Bool.false_ne_true] at h
        split at h
        · next hempty => exact .nowhere hwalk hempty
        · next hne =>
          cases links with
          | zero => cases h
          | succ links =>
            exact .link hwalk (Bool.eq_false_iff.2 hne) (ih links (Nat.lt_succ_self _) h)
  · intro h
    induction h generalizing only with
    | missing hwalk hlacks =>
      exact misses_follow_of_walk (Trail.isMissing_walk_iff.2 ⟨_, _, _, _, rfl, hwalk, hlacks⟩)
    | nowhere hwalk hempty =>
      rw [follow, hwalk]
      simp only [hempty, Bool.not_true, Bool.and_false, Bool.false_and, Bool.false_eq_true,
        if_false, if_true]
      rfl
    | link hwalk hne _ ih =>
      rw [follow_of_link hwalk (by simp) hne]
      exact ih

/-- A lookup does not fail at a directory for being one. -/
theorem follow_ne_isDirectory {last : Bool} :
    fs.follow last links only t steps ≠ .error .isDirectory := by
  induction links using Nat.strongRecOn generalizing only t steps with
  | _ links ih =>
    rw [follow]
    split
    · next e hwalk =>
      intro h
      exact Trail.walk_ne_isDirectory (Except.error.inj h ▸ hwalk)
    · simp
    · split <;> simp
    · split
      · simp
      · split
        · simp
        · cases links with
          | zero => simp
          | succ links => exact ih links (Nat.lt_succ_self _)

end FileSystem

/-! ## Paths -/

namespace View

variable {v : View} {p : Path} {node : Node}

/-- Following a path, its last link too, leads to a name that is not there. -/
def Dangles (v : View) (p : Path) : Prop :=
  ∃ t, v.startOf p = some t ∧ v.files.Dangles FileSystem.maxLinks t p.steps

/-- A path that can be asked for is looked up by following its steps. -/
theorem locate_eq_follow {t : Trail} (last : Bool) (hnul : p.bytes.contains 0 = false)
    (hlen : p.isTooLong = false) (hne : p.bytes.isEmpty = false) (hstart : v.startOf p = some t) :
    v.locate last p = v.files.follow last FileSystem.maxLinks p.endsInSlash t p.steps := by
  rw [startOf] at hstart
  rw [locate, lookUp, hnul, hlen, hne, hstart]
  rfl

/-- **A path with an entry of its own is not found exactly when following it leads to a name that is
not there.** -/
theorem find_eq_noEntry_iff (h : v.findEntry p = .ok node) :
    v.find p = .error .noEntry ↔ v.Dangles p := by
  obtain ⟨found, hfound, -⟩ := nodeOf_eq_ok_iff.1 h
  obtain ⟨hnul, hlen, hne, t, hstart, -⟩ := locate_eq_ok_iff.1 hfound
  have hmisses : v.find p = .error .noEntry ↔ FileSystem.Misses (v.locate true p) := by
    rw [find]
    rcases v.locate true p with e | ⟨t⟩ | ⟨t, name⟩ <;> simp [nodeOf, FileSystem.Misses]
  rw [hmisses, locate_eq_follow true hnul hlen hne hstart, FileSystem.misses_follow_iff, Dangles]
  simp [hstart]

/-- No path fails at a directory for being one. -/
theorem find_ne_isDirectory : v.find p ≠ .error .isDirectory := by
  have hlocate : v.locate true p ≠ .error .isDirectory := by
    rw [locate, lookUp]
    split
    · simp
    · split
      · simp
      · split
        · simp
        · split
          · simp
          · exact FileSystem.follow_ne_isDirectory
  rw [find]
  rcases hr : v.locate true p with e | ⟨t⟩ | ⟨t, name⟩
  · rw [hr] at hlocate
    simpa [nodeOf] using hlocate
  · simp [nodeOf]
  · simp [nodeOf]

end View

end SqlSanity
