import SqlSanity.FileSystem.Lookup
import SqlSanity.Proofs.Path.Join

/-!
# Proofs/FileSystem/Lookup — the lookup of an entry goes through the lookup of its directory

A lookup goes step by step, and when its steps fall into two parts it does the first part and goes
on with the second from where that ended.  So the entry of a directory is found below the directory,
whatever links and slashes the path of the directory has.

Two lookups of one path differ only in the last link, which one keeps and the other follows: a path
whose entry is no link leads to that entry.

* `FileSystem.follow_append` — steps in two parts, from a lookup that has ended at a directory;
* `View.findEntry_join` — the entry of a directory that can be passed through;
* `View.find_eq_findEntry` — where no link is kept, a path leads to its entry;
* `View.ordered_of_find` — what a path leads to is a tree in order.
-/

namespace SqlSanity

/-! ## Entries -/

/-- In a directory in order, an entry is found by its name. -/
theorem Entries.find_of_mem {es : Entries} (h : es.Sorted) {e : FileName × Node} (he : e ∈ es) :
    Entries.find es e.1.bytes = some e := by
  induction es with
  | nil => cases he
  | cons d es ih =>
    obtain ⟨hd, hes⟩ := List.pairwise_cons.1 h
    rw [find]
    rcases List.mem_cons.1 he with rfl | he
    · exact List.find?_cons_of_pos (beq_self_eq_true _)
    · have hne : d.1.bytes ≠ e.1.bytes := fun hb =>
        FileName.lt_irrefl e.1 (FileName.ext hb ▸ hd e he)
      rw [List.find?_cons_of_neg (by simpa using hne)]
      exact ih hes he

/-- In a directory in order, a name has one entry. -/
theorem Entries.eq_of_mem {es : Entries} (h : es.Sorted) {n : FileName} {node node' : Node}
    (hn : (n, node) ∈ es) (hn' : (n, node') ∈ es) : node = node' := by
  have hfind : Entries.find es n.bytes = some (n, node) := find_of_mem h hn
  have hfind' : Entries.find es n.bytes = some (n, node') := find_of_mem h hn'
  exact (Prod.mk.inj (Option.some.inj (hfind.symm.trans hfind'))).2

/-- What is found among the entries is one of them, under that name. -/
theorem Entries.mem_of_find {es : Entries} {name : Bytes} {e : FileName × Node}
    (h : Entries.find es name = some e) : e ∈ es ∧ e.1.bytes = name :=
  ⟨List.mem_of_find?_eq_some h, by simpa using List.find?_some h⟩

namespace Node

/-- A symbolic link. -/
def isLink : Node → Bool
  | link _ => true
  | _ => false

theorem exists_of_isLink : ∀ {node : Node}, node.isLink = true → ∃ target, node = .link target
  | link target, _ => ⟨target, rfl⟩

theorem isLink_of_isDirectory : ∀ {node : Node}, node.isDirectory = true → node.isLink = false
  | directory _ _, _ => rfl

theorem Ordered.sorted {locked : Bool} {es : Entries} (h : (Node.directory locked es).Ordered) :
    es.Sorted := by
  cases h with
  | directory sorted each => exact sorted

/-- A directory of one entry is in order when the entry is. -/
theorem Ordered.single {locked : Bool} {n : FileName} {node : Node} (h : node.Ordered) :
    (Node.directory locked [(n, node)]).Ordered := by
  refine .directory (List.pairwise_singleton _ _) fun e he => ?_
  obtain rfl := List.mem_singleton.1 he
  exact h

/-- A directory of two entries is in order when they are and their names stand in order. -/
theorem Ordered.pair {locked : Bool} {a b : FileName × Node} (hlt : a.1 < b.1)
    (ha : a.2.Ordered) (hb : b.2.Ordered) : (Node.directory locked [a, b]).Ordered := by
  refine .directory (List.pairwise_pair.2 hlt) fun e he => ?_
  rcases List.mem_cons.1 he with rfl | he
  · exact ha
  · obtain rfl := List.mem_singleton.1 he
    exact hb

theorem Ordered.of_mem {locked : Bool} {es : Entries} (h : (Node.directory locked es).Ordered)
    {e : FileName × Node} (he : e ∈ es) : e.2.Ordered := by
  cases h with
  | directory sorted each => exact each e he

end Node

/-! ## Trails -/

namespace Trail

variable {root : Node} {t t' : Trail} {s more : List Bytes}

/-- **A walk along steps in two parts goes on where the first part ended.** -/
theorem walk_append (hmore : more ≠ []) : ∀ {t : Trail} {s : List Bytes},
    walk root t (s ++ more) =
      match walk root t s with
      | .there t' => walk root t' more
      | .link t' name target rest => .link t' name target (rest ++ more)
      | .absent _ _ => .failed .noEntry
      | .failed e => .failed e
  | _, [] => rfl
  | t, b :: s => by
    have ih := fun t => @walk_append hmore t s
    have hne : (s ++ more).isEmpty = false :=
      List.isEmpty_eq_false_iff.2 (List.append_ne_nil_of_right_ne_nil _ hmore)
    rw [List.cons_append, walk, walk]
    split
    · rfl
    · split
      · exact ih t
      · split
        · exact ih t.tail
        · split
          · rfl
          · split
            · rw [hne, if_neg Bool.false_ne_true]
              by_cases hs : s.isEmpty = true
              · rw [if_pos hs]
              · rw [if_neg hs]
            · rfl
            · exact ih _
    · rfl

theorem walk_dot : walk root t [[Path.dot]] =
    match here root t with
    | .directory true _ => .failed .denied
    | .directory false _ => .there t
    | _ => .failed .notDirectory := by
  rw [walk]
  cases here root t with
  | file locked content => rfl
  | link target => rfl
  | directory locked entries =>
    cases locked with
    | true => rfl
    | false => exact if_pos (beq_self_eq_true _)

/-- A walk whose last step is a dot ends at a directory. -/
theorem isDirectory_of_walk_dot (h : walk root t (s ++ [[Path.dot]]) = .there t') :
    (t'.here root).isDirectory = true := by
  rw [walk_append (List.cons_ne_nil _ _)] at h
  split at h
  · rw [walk_dot] at h
    split at h
    · cases h
    · next hdir =>
      cases h
      rw [hdir, Node.isDirectory]
    · cases h
  · cases h
  · cases h
  · cases h

/-- A walk whose last step is a dot has that step left at the link that it stops at. -/
theorem exists_of_walk_dot_eq_link {t₁ : Trail} {name : FileName} {target : Path}
    {rest : List Bytes} (h : walk root t (s ++ [[Path.dot]]) = .link t₁ name target rest) :
    ∃ rest', rest = rest' ++ [[Path.dot]] := by
  rw [walk_append (List.cons_ne_nil _ _)] at h
  split at h
  · rw [walk_dot] at h
    split at h <;> cases h
  · cases h
    exact ⟨_, rfl⟩
  · cases h
  · cases h

/-- The first step of a walk, when it is the name of an entry. -/
theorem walk_name {es : Entries} {e : FileName × Node} {n : FileName} {rest : List Bytes}
    (ht : here root t = .directory false es) (he : Entries.find es n.bytes = some e) :
    walk root t (n.bytes :: rest) =
      match e.2 with
      | .link target => .link t e.1 target rest
      | _ => walk root (e :: t) rest := by
  rw [walk, ht]
  have hdot : (n.bytes == [Path.dot]) = false := beq_eq_false_iff_ne.2 n.ne_dot
  have hdots : (n.bytes == [Path.dot, Path.dot]) = false := beq_eq_false_iff_ne.2 n.ne_dots
  have hlen : ¬n.bytes.length > 255 := Nat.not_lt.2 n.length_le
  simp only [hdot, hdots, hlen, he, Bool.false_eq_true, if_false]
  obtain ⟨name, node⟩ := e
  cases node <;> rfl

/-- The trail that a walk stops with. -/
def Stop.trail : Stop → Trail
  | .there t => t
  | .link t _ _ _ => t
  | .absent t _ => t
  | .failed _ => []

/-- What holds of a trail whatever steps are taken: it holds at the root, one step back, and one
step on into an entry. -/
structure KeptBySteps (root : Node) (P : Trail → Prop) : Prop where
  nil : P []
  tail : ∀ {t : Trail}, P t → P t.tail
  cons : ∀ {t : Trail} {locked : Bool} {es : Entries} {e : FileName × Node}, P t →
    here root t = .directory locked es → e ∈ es → P (e :: t)

namespace KeptBySteps

variable {P : Trail → Prop}

/-- A walk keeps what steps keep. -/
theorem walk (hP : KeptBySteps root P) : ∀ {t : Trail} {s : List Bytes}, P t →
    P (walk root t s).trail
  | _, [], h => h
  | t, b :: s, h => by
    have ih := fun t h => @walk hP t s h
    rw [Trail.walk]
    split
    · exact hP.nil
    · next hdir =>
      split
      · exact ih t h
      · split
        · exact ih _ (hP.tail h)
        · split
          · exact hP.nil
          · split
            · split
              · exact h
              · exact hP.nil
            · exact h
            · next _ hfind => exact ih _ (hP.cons h hdir (Entries.mem_of_find hfind).1)
    · exact hP.nil

/-- So does the way down a place. -/
theorem extend (hP : KeptBySteps root P) : ∀ {place : List FileName} {t t' : Trail},
    P t → extend root t place = some t' → P t'
  | [], _, _, h, ht => Option.some.inj ht ▸ h
  | n :: place, t, t', h, ht => by
    rw [Trail.extend] at ht
    split at ht
    · next hdir =>
      obtain ⟨e, he, ht⟩ := Option.bind_eq_some_iff.1 ht
      exact extend hP (hP.cons h hdir (Entries.mem_of_find he).1) ht
    · cases ht

end KeptBySteps

/-- Every node on the trail is a tree in order. -/
def Ordered (t : Trail) : Prop := ∀ e ∈ t, e.2.Ordered

theorem Ordered.here (hroot : root.Ordered) (h : t.Ordered) : (t.here root).Ordered := by
  cases t with
  | nil => exact hroot
  | cons e t => exact h e List.mem_cons_self

theorem Ordered.cons {e : FileName × Node} (he : e.2.Ordered) (h : t.Ordered) :
    Trail.Ordered (e :: t) := fun d hd => by
  rcases List.mem_cons.1 hd with rfl | hd
  · exact he
  · exact h d hd

theorem keptBySteps_ordered (hroot : root.Ordered) : KeptBySteps root Trail.Ordered where
  nil := fun _ h => nomatch h
  tail h := fun e he => h e (List.mem_of_mem_tail he)
  cons h hdir he := by
    have hhere := h.here hroot
    rw [hdir] at hhere
    exact h.cons (hhere.of_mem he)

end Trail

/-! ## Following links -/

namespace FileSystem

variable {fs : FileSystem} {last only : Bool} {links : Nat} {t t₁ t' : Trail}
  {steps more rest : List Bytes} {name : FileName} {target : Path}

/-- The trail that a link is followed from. -/
def linkStart (target : Path) (t : Trail) : Trail := if target.isAbsolute then [] else t

/-- A link is followed unless it is the last one and is to be kept. -/
theorem follow_of_link (hw : t.walk fs.root steps = .link t₁ name target rest)
    (hgo : (rest.isEmpty && !last && !only) = false) (hne : target.bytes.isEmpty = false) :
    fs.follow last (links + 1) only t steps =
      fs.follow last links (only || (rest.isEmpty && target.endsInSlash)) (linkStart target t₁)
        (target.steps ++ rest) := by
  rw [follow, hw]
  simp only [hgo, hne, Bool.false_eq_true, if_false]
  rfl

/-- **How a lookup comes to an end**: its walk ends there, or it keeps the link that the walk stops
at, or it follows that link and comes to the same end. -/
theorem follow_eq_there (h : fs.follow last links only t steps = .ok (.there t')) :
    t.walk fs.root steps = .there t' ∨
      ∃ t₁ name target rest, t.walk fs.root steps = .link t₁ name target rest ∧
        (((rest.isEmpty && !last && !only) = true ∧ t' = (name, .link target) :: t₁) ∨
          ((rest.isEmpty && !last && !only) = false ∧ target.bytes.isEmpty = false ∧
            ∃ links', links = links' + 1 ∧
              fs.follow last links' (only || (rest.isEmpty && target.endsInSlash))
                (linkStart target t₁) (target.steps ++ rest) = .ok (.there t'))) := by
  rw [follow] at h
  split at h
  · cases h
  · cases h
  · next t₂ hw =>
    split at h
    · cases h
    · cases h
      exact .inl hw
  · next t₁ name target rest hw =>
    refine .inr ⟨t₁, name, target, rest, hw, ?_⟩
    split at h
    · next hkept =>
      cases h
      exact .inl ⟨hkept, rfl⟩
    · next hgo =>
      split at h
      · cases h
      · next hne =>
        cases links with
        | zero => cases h
        | succ links =>
          exact .inr ⟨Bool.eq_false_iff.2 hgo, Bool.eq_false_iff.2 hne, links, rfl, h⟩

/-- **A lookup of steps in two parts goes on with the second part from where the first ended.** -/
theorem follow_append (last : Bool) (hmore : more ≠ [])
    (h : fs.follow true links only t steps = .ok (.there t')) :
    ∃ links', fs.follow last links false t (steps ++ more) =
      fs.follow last links' false t' more := by
  induction links using Nat.strongRecOn generalizing only t steps with
  | _ links ih =>
    rcases follow_eq_there h with
      hw | ⟨t₁, name, target, rest, hw, ⟨hkept, -⟩ | ⟨-, hne, links, rfl, hnext⟩⟩
    · exact ⟨links, by rw [follow, Trail.walk_append hmore, hw, follow]⟩
    · simp at hkept
    · obtain ⟨links', ih⟩ := ih links (Nat.lt_succ_self _) hnext
      have hw' : t.walk fs.root (steps ++ more) = .link t₁ name target (rest ++ more) := by
        rw [Trail.walk_append hmore, hw]
      have hrest : (rest ++ more).isEmpty = false :=
        List.isEmpty_eq_false_iff.2 (List.append_ne_nil_of_right_ne_nil _ hmore)
      refine ⟨links', ?_⟩
      rw [follow_of_link hw' (by simp [hrest]) hne, hrest, ← List.append_assoc]
      exact ih

/-- A lookup that follows every link keeps what steps keep. -/
theorem keptBySteps_follow {P : Trail → Prop} (hP : Trail.KeptBySteps fs.root P) (ht : P t)
    (h : fs.follow true links only t steps = .ok (.there t')) : P t' := by
  induction links using Nat.strongRecOn generalizing only t steps with
  | _ links ih =>
    have hwalk := hP.walk (s := steps) ht
    rcases follow_eq_there h with
      hw | ⟨t₁, _, target, _, hw, ⟨hkept, -⟩ | ⟨-, -, links, rfl, hnext⟩⟩
    · rwa [hw] at hwalk
    · simp at hkept
    · rw [hw] at hwalk
      have hstart : P (linkStart target t₁) := by
        rw [linkStart]
        split
        · exact hP.nil
        · exact hwalk
      exact ih links (Nat.lt_succ_self _) hstart hnext

/-- A lookup whose last step is a dot ends at a directory. -/
theorem isDirectory_of_follow_dot
    (h : fs.follow last links only t (steps ++ [[Path.dot]]) = .ok (.there t')) :
    (t'.here fs.root).isDirectory = true := by
  induction links using Nat.strongRecOn generalizing only t steps with
  | _ links ih =>
    rcases follow_eq_there h with
      hw | ⟨t₁, name, target, rest, hw, ⟨hkept, -⟩ | ⟨-, -, links, rfl, hnext⟩⟩
    · exact Trail.isDirectory_of_walk_dot hw
    · obtain ⟨rest, rfl⟩ := Trail.exists_of_walk_dot_eq_link hw
      simp at hkept
    · obtain ⟨rest, rfl⟩ := Trail.exists_of_walk_dot_eq_link hw
      rw [← List.append_assoc] at hnext
      exact ih links (Nat.lt_succ_self _) hnext

/-- **A lookup that keeps no link is one that follows them all.** -/
theorem follow_last (h : ∀ t', fs.follow false links only t steps = .ok (.there t') →
    (t'.here fs.root).isLink = false) :
    fs.follow true links only t steps = fs.follow false links only t steps := by
  induction links using Nat.strongRecOn generalizing only t steps with
  | _ links ih =>
    cases hw : t.walk fs.root steps with
    | failed e => rw [follow, follow, hw]
    | absent t₁ name => rw [follow, follow, hw]
    | there t₁ => rw [follow, follow, hw]
    | link t₁ name target rest =>
      cases hgo : rest.isEmpty && !false && !only with
      | true =>
        have hkept : fs.follow false links only t steps
            = .ok (.there ((name, .link target) :: t₁)) := by
          rw [follow, hw]
          simp only [hgo, if_true]
        exact absurd (h _ hkept) (by simp [Trail.here, Node.isLink])
      | false =>
        have htrue : (rest.isEmpty && !true && !only) = false := by
          rw [Bool.not_true, Bool.and_false, Bool.false_and]
        cases hne : target.bytes.isEmpty with
        | true =>
          rw [follow, follow, hw]
          simp only [htrue, hgo, hne, Bool.false_eq_true, if_false, if_true]
        | false =>
          cases links with
          | zero =>
            rw [follow, follow, hw]
            simp only [htrue, hgo, hne, Bool.false_eq_true, if_false]
          | succ links =>
            rw [follow_of_link hw hgo hne] at h
            rw [follow_of_link hw htrue hne, follow_of_link hw hgo hne]
            exact ih links (Nat.lt_succ_self _) h

end FileSystem

/-! ## Paths -/

namespace View

variable {v : View} {p : Path} {node child : Node} {n : FileName} {last : Bool}

/-- The trail that the lookup of a path starts from. -/
def startOf (v : View) (p : Path) : Option Trail := if p.isAbsolute then some [] else v.start

/-- What a lookup takes to find something: a path that can be asked for, a place to start from, and
steps that lead there. -/
theorem locate_eq_ok_iff {found : Found} : v.locate last p = .ok found ↔
    p.bytes.contains 0 = false ∧ p.isTooLong = false ∧ p.bytes.isEmpty = false ∧
      ∃ t, v.startOf p = some t ∧
        v.files.follow last FileSystem.maxLinks p.endsInSlash t p.steps = .ok found := by
  rw [locate, lookUp]
  change (if p.bytes.contains 0 = true then _ else if p.isTooLong = true then _ else
    if p.bytes.isEmpty = true then _ else match v.startOf p with | none => _ | some t => _) = _ ↔ _
  cases p.bytes.contains 0 with
  | true => simp
  | false =>
    cases p.isTooLong with
    | true => simp
    | false =>
      cases p.bytes.isEmpty with
      | true => simp
      | false => cases v.startOf p <;> simp

theorem nodeOf_eq_ok_iff {r : Except FileError Found} :
    v.nodeOf r = .ok node ↔ ∃ t, r = .ok (.there t) ∧ t.here v.files.root = node := by
  rcases r with e | t | ⟨t, name⟩ <;> simp [nodeOf]

theorem ordered_start {t : Trail} (h : v.start = some t) : t.Ordered := by
  have hkept := Trail.keptBySteps_ordered v.files.ordered
  rw [start] at h
  split at h
  · split at h
    · cases h
    · obtain ⟨t', ht, rfl⟩ := Option.map_eq_some_iff.1 h
      exact .cons (.emptyDirectory false) (hkept.extend hkept.nil ht)
  · exact hkept.extend hkept.nil h

/-- **What a path leads to is a tree in order.** -/
theorem ordered_of_find (h : v.find p = .ok node) : node.Ordered := by
  obtain ⟨t, ht, rfl⟩ := nodeOf_eq_ok_iff.1 h
  obtain ⟨-, -, -, t₀, h₀, hfollow⟩ := locate_eq_ok_iff.1 ht
  have hstart : t₀.Ordered := by
    rw [startOf] at h₀
    split at h₀
    · cases h₀
      exact fun _ h => nomatch h
    · exact ordered_start h₀
  exact (FileSystem.keptBySteps_follow (Trail.keptBySteps_ordered v.files.ordered) hstart
    hfollow).here v.files.ordered

/-- A path that leads somewhere is not too long and holds no NUL byte. -/
theorem askable_of_find (h : v.find p = .ok node) :
    p.isTooLong = false ∧ p.bytes.contains 0 = false := by
  obtain ⟨t, ht, -⟩ := nodeOf_eq_ok_iff.1 h
  obtain ⟨hnul, hlen, -⟩ := locate_eq_ok_iff.1 ht
  exact ⟨hlen, hnul⟩

theorem isDirectory_iff : v.isDirectory p = true ↔
    ∃ node, v.find p = .ok node ∧ node.isDirectory = true := by
  rw [isDirectory]
  split
  · next node h => simp [h]
  · next e h => simp [h]

/-- The lookup of a name below a path goes on from where the path leads. -/
theorem locate_join {t : Trail} (last : Bool) (h : v.locate true p = .ok (.there t))
    (hlen : (p.join n.toPath).isTooLong = false) :
    ∃ links, v.locate last (p.join n.toPath) = v.files.follow last links false t [n.bytes] := by
  obtain ⟨hnul, -, hne, t₀, h₀, hfollow⟩ := locate_eq_ok_iff.1 h
  obtain ⟨links, hgo⟩ := FileSystem.follow_append last (List.cons_ne_nil n.bytes []) hfollow
  refine ⟨links, ?_⟩
  have hne' : (p.join n.toPath).bytes.isEmpty = false :=
    List.isEmpty_eq_false_iff.2 (Path.bytes_join_ne_nil p n)
  have hstart : v.startOf (p.join n.toPath) = some t₀ := by
    rw [startOf, Path.isAbsolute_join (List.isEmpty_eq_false_iff.1 hne)]
    exact h₀
  rw [startOf] at hstart
  rw [locate, lookUp, Path.contains_nul_join, hnul, hlen, hne', hstart, Path.endsInSlash_join,
    Path.steps_join]
  exact hgo

/-- **The entry of a directory that can be passed through is found under its name.** -/
theorem findEntry_join {es : Entries} (h : v.find p = .ok (.directory false es))
    (hmem : (n, child) ∈ es) (hlen : (p.join n.toPath).isTooLong = false) :
    v.findEntry (p.join n.toPath) = .ok child := by
  obtain ⟨t, hat, ht⟩ := nodeOf_eq_ok_iff.1 h
  obtain ⟨links, hlocate⟩ := locate_join false hat hlen
  have hfind : Entries.find es n.bytes = some (n, child) :=
    Entries.find_of_mem (ordered_of_find h).sorted hmem
  rw [findEntry, hlocate, FileSystem.follow, Trail.walk_name ht hfind]
  cases child with
  | file locked content => rfl
  | link target => rfl
  | directory locked es => rfl

/-- **Where no link is kept, a path leads to its entry**, or fails as the lookup of its entry
does. -/
theorem find_eq_findEntry (h : ∀ node, v.findEntry p = .ok node → node.isLink = false) :
    v.find p = v.findEntry p := by
  have hlookUp : v.locate true p = v.locate false p := by
    rw [locate, locate, lookUp, lookUp]
    split
    · rfl
    · next hnul =>
      split
      · rfl
      · next hlen =>
        split
        · rfl
        · next hne =>
          split
          · rfl
          · next t₀ h₀ =>
            refine FileSystem.follow_last fun t hfollow => h _ (nodeOf_eq_ok_iff.2 ⟨t, ?_, rfl⟩)
            exact locate_eq_ok_iff.2 ⟨Bool.eq_false_iff.2 hnul, Bool.eq_false_iff.2 hlen,
              Bool.eq_false_iff.2 hne, t₀, h₀, hfollow⟩
  rw [find, findEntry, hlookUp]

/-- A path whose entry is no link leads to that entry. -/
theorem find_of_findEntry (h : v.findEntry p = .ok node) (hlink : node.isLink = false) :
    v.find p = .ok node := by
  rw [find_eq_findEntry fun node' h' => ?_, h]
  rw [h] at h'
  cases h'
  exact hlink

/-- A path leads nowhere when it has no entry. -/
theorem find_of_findEntry_error {e : FileError} (h : v.findEntry p = .error e) :
    v.find p = .error e := by
  rw [find_eq_findEntry fun node h' => ?_, h]
  rw [h] at h'
  cases h'

/-- A path whose last step is a dot leads to a directory or nowhere. -/
theorem isDirectory_of_getLast? (h : v.find p = .ok node)
    (hdot : p.steps.getLast? = some [Path.dot]) : node.isDirectory = true := by
  obtain ⟨t, ht, rfl⟩ := nodeOf_eq_ok_iff.1 h
  obtain ⟨-, -, -, t₀, -, hfollow⟩ := locate_eq_ok_iff.1 ht
  obtain ⟨steps, hsteps⟩ := List.getLast?_eq_some_iff.1 hdot
  rw [hsteps] at hfollow
  exact FileSystem.isDirectory_of_follow_dot hfollow

end View

end SqlSanity
