import SqlSanity.Discovery

/-!
# Proofs/Path/Join — a path with one more name

A walk spells the path of each entry by joining the path of its directory with the name.  Whatever
slashes the path of the directory ends in, the joined path takes one step more, the name itself, and
its last name and its extension are those of the name.  So the walk never has to look at the path it
started from, and two entries have the same path only if they have the same names.

* `Path.steps_join` — the steps of a joined path;
* `Path.isSql_join_iff` — when a joined path has the extension of SQL files;
* `Path.below_injective` — names below a path are told apart by their paths.
-/

namespace SqlSanity

/-! ## Names -/

/-- What a name must be, one condition by one. -/
theorem isFileName_iff {b : Bytes} : isFileName b = true ↔
    b ≠ [] ∧ b ≠ [Path.dot] ∧ b ≠ [Path.dot, Path.dot] ∧ b.length ≤ 255 ∧
      Path.slash ∉ b ∧ 0 ∉ b := by
  simp [isFileName, and_assoc]

namespace FileName

theorem ne_nil (n : FileName) : n.bytes ≠ [] := (isFileName_iff.1 n.isFileName_bytes).1

theorem ne_dot (n : FileName) : n.bytes ≠ [Path.dot] := (isFileName_iff.1 n.isFileName_bytes).2.1

theorem ne_dots (n : FileName) : n.bytes ≠ [Path.dot, Path.dot] :=
  (isFileName_iff.1 n.isFileName_bytes).2.2.1

theorem length_le (n : FileName) : n.bytes.length ≤ 255 :=
  (isFileName_iff.1 n.isFileName_bytes).2.2.2.1

theorem slash_not_mem (n : FileName) : Path.slash ∉ n.bytes :=
  (isFileName_iff.1 n.isFileName_bytes).2.2.2.2.1

theorem nul_not_mem (n : FileName) : 0 ∉ n.bytes := (isFileName_iff.1 n.isFileName_bytes).2.2.2.2.2

/-- A name is no void segment. -/
theorem isVoid_bytes (n : FileName) : Path.isVoid n.bytes = false :=
  Path.isVoid_eq_false_iff.2 ⟨n.ne_nil, n.ne_dot⟩

/-- A name is a path that does not start at the root. -/
theorem isAbsolute_toPath (n : FileName) : n.toPath.isAbsolute = false := by
  obtain ⟨b, bs, hb⟩ := List.exists_cons_of_ne_nil n.ne_nil
  have hne : b ≠ Path.slash := fun h => n.slash_not_mem (hb ▸ h ▸ List.mem_cons_self)
  simpa [Path.isAbsolute, toPath, hb] using hne

end FileName

namespace Path

/-! ## Segments -/

theorem segments_slash (bs : Bytes) : segments (slash :: bs) = [] :: segments bs := by
  rw [segments, if_pos (beq_self_eq_true slash)]

theorem segments_cons {b : UInt8} {bs s : Bytes} {ss : List Bytes} (hb : b ≠ slash)
    (h : segments bs = s :: ss) : segments (b :: bs) = (b :: s) :: ss := by
  rw [segments, if_neg (by simpa using hb), h]

/-- A slash parts the segments before it from those after it. -/
theorem segments_append_slash : ∀ as bs : Bytes,
    segments (as ++ slash :: bs) = segments as ++ segments bs
  | [], bs => segments_slash bs
  | a :: as, bs => by
    have ih := segments_append_slash as bs
    by_cases ha : a = slash
    · rw [ha, List.cons_append, segments_slash, segments_slash, ih, List.cons_append]
    · obtain ⟨s, ss, hs⟩ := List.exists_cons_of_ne_nil (segments_ne_nil as)
      rw [List.cons_append, segments_cons ha (ih.trans (by rw [hs, List.cons_append])),
        segments_cons ha hs, List.cons_append]

/-- Bytes without a slash are one segment. -/
theorem segments_of_not_mem : ∀ {bs : Bytes}, slash ∉ bs → segments bs = [bs]
  | [], _ => rfl
  | b :: bs, h => by
    have hb : b ≠ slash := fun hb => h (hb ▸ List.mem_cons_self)
    exact segments_cons hb (segments_of_not_mem fun hbs => h (List.mem_cons_of_mem _ hbs))

/-- There is no slash within a segment. -/
theorem slash_not_mem_segments : ∀ {bs : Bytes}, ∀ s ∈ segments bs, slash ∉ s
  | [], s, hs => by
    rw [segments, List.mem_singleton] at hs
    exact hs ▸ List.not_mem_nil
  | b :: bs, s, hs => by
    by_cases hb : b = slash
    · rw [hb, segments_slash, List.mem_cons] at hs
      rcases hs with rfl | hs
      · exact List.not_mem_nil
      · exact slash_not_mem_segments s hs
    · obtain ⟨t, ts, ht⟩ := List.exists_cons_of_ne_nil (segments_ne_nil bs)
      have ih : ∀ u ∈ t :: ts, slash ∉ u := ht ▸ slash_not_mem_segments
      rw [segments_cons hb ht, List.mem_cons] at hs
      rcases hs with rfl | hs
      · rw [List.mem_cons, not_or]
        exact ⟨Ne.symm hb, ih t List.mem_cons_self⟩
      · exact ih s (List.mem_cons_of_mem _ hs)

/-- Segments with slashes between them are cut into the same segments. -/
theorem segments_unite : ∀ {ss : List Bytes}, ss ≠ [] → (∀ s ∈ ss, slash ∉ s) →
    segments (unite ss) = ss
  | [s], _, h => segments_of_not_mem (h s List.mem_cons_self)
  | s :: t :: ss, _, h => by
    obtain ⟨hs, hts⟩ := List.forall_mem_cons.1 h
    rw [unite, segments_append_slash, segments_of_not_mem hs,
      segments_unite (List.cons_ne_nil t ss) hts, List.singleton_append]
    exact List.cons_ne_nil _ _

/-- **Joining with a name puts one segment behind those that take a step.** -/
theorem exists_segments_join (p : Path) (n : FileName) :
    ∃ front, segments (p.join n.toPath).bytes = front ++ [n.bytes] ∧
      front.filter (fun s => !s.isEmpty) = p.steps := by
  have hn : segments n.bytes = [n.bytes] := segments_of_not_mem n.slash_not_mem
  rw [join, if_neg (by simp [n.isAbsolute_toPath])]
  split
  · next h =>
    rw [Bool.or_eq_true, List.isEmpty_iff] at h
    rcases h with h | h
    · exact ⟨[], by simpa [h, FileName.toPath] using hn, by simp [steps, h, segments]⟩
    · obtain ⟨as, has⟩ : ∃ as, p.bytes = as ++ [slash] := by
        have hlast : p.bytes.getLast? = some slash := by simpa [endsInSlash] using h
        exact List.getLast?_eq_some_iff.1 hlast
      refine ⟨segments as, ?_, ?_⟩
      · rw [has, List.append_assoc, FileName.toPath, List.singleton_append, segments_append_slash,
          hn]
      · rw [steps, has, segments_append_slash, List.filter_append, segments]
        simp
  · exact ⟨segments p.bytes, by rw [FileName.toPath, segments_append_slash, hn], rfl⟩

/-- **A joined path takes one step more.** -/
@[simp] theorem steps_join (p : Path) (n : FileName) :
    (p.join n.toPath).steps = p.steps ++ [n.bytes] := by
  obtain ⟨front, hsegments, hsteps⟩ := exists_segments_join p n
  have hn : n.bytes.isEmpty = false := List.isEmpty_eq_false_iff.2 n.ne_nil
  rw [steps, hsegments, List.filter_append, hsteps]
  simp [hn]

/-- The last name of a joined path is the name. -/
theorem fileName?_join (p : Path) (n : FileName) : (p.join n.toPath).fileName? = some n.bytes := by
  obtain ⟨front, hsegments, -⟩ := exists_segments_join p n
  rw [fileName?, hsegments, List.reverse_append, List.reverse_singleton, List.singleton_append,
    List.find?_cons_of_pos (by simp [n.isVoid_bytes])]
  simp [n.ne_dots]

/-! ## Bytes of a joined path -/

/-- A joined path ends in the name, behind the bytes of the path and at most a slash. -/
theorem bytes_join (p : Path) (n : FileName) :
    (p.join n.toPath).bytes = p.bytes ++ n.bytes ∨
      (p.join n.toPath).bytes = p.bytes ++ slash :: n.bytes := by
  rw [join, if_neg (by simp [n.isAbsolute_toPath])]
  split
  · exact .inl rfl
  · exact .inr rfl

theorem getLast?_bytes_join (p : Path) (n : FileName) :
    (p.join n.toPath).bytes.getLast? = n.bytes.getLast? := by
  have hlast := List.getLast?_eq_some_getLast n.ne_nil
  rcases bytes_join p n with h | h
  · rw [h, List.getLast?_append, hlast, Option.some_or]
  · rw [h, ← List.singleton_append, List.getLast?_append, List.getLast?_append, hlast,
      Option.some_or, Option.some_or]

/-- A joined path names an entry, not only a directory. -/
@[simp] theorem endsInSlash_join (p : Path) (n : FileName) :
    (p.join n.toPath).endsInSlash = false := by
  rw [endsInSlash, getLast?_bytes_join, beq_eq_false_iff_ne]
  exact fun h => n.slash_not_mem (List.mem_of_getLast? h)

theorem bytes_join_ne_nil (p : Path) (n : FileName) : (p.join n.toPath).bytes ≠ [] := by
  rcases bytes_join p n with h | h
  · rw [h]
    exact List.append_ne_nil_of_right_ne_nil _ n.ne_nil
  · rw [h]
    exact List.append_ne_nil_of_right_ne_nil _ (List.cons_ne_nil _ _)

/-- A joined path is as long as its two parts at least. -/
theorem le_length_join (p : Path) (n : FileName) :
    p.bytes.length + n.bytes.length ≤ (p.join n.toPath).bytes.length := by
  rcases bytes_join p n with h | h
  · exact Nat.le_of_eq ((congrArg List.length h).trans List.length_append).symm
  · rw [h, List.length_append, List.length_cons]
    omega

/-- A joined path starts at the root exactly when the path does. -/
theorem isAbsolute_join {p : Path} (hp : p.bytes ≠ []) (n : FileName) :
    (p.join n.toPath).isAbsolute = p.isAbsolute := by
  obtain ⟨b, bs, hb⟩ := List.exists_cons_of_ne_nil hp
  rcases bytes_join p n with h | h <;> rw [isAbsolute, isAbsolute, h, hb] <;> rfl

/-- Joining with a name brings no NUL byte in. -/
theorem contains_nul_join (p : Path) (n : FileName) :
    (p.join n.toPath).bytes.contains 0 = p.bytes.contains 0 := by
  have hn : n.bytes.contains 0 = false := by simpa using n.nul_not_mem
  rcases bytes_join p n with h | h
  · rw [h, List.contains_append, hn, Bool.or_false]
  · rw [h, List.contains_append, List.contains_cons, hn]
    simp [slash]

/-! ## The extension of SQL files -/

/-- A name of an SQL file: it ends in `.sql`, with at least one byte before that. -/
def IsSqlName (name : Bytes) : Prop := ∃ stem, stem ≠ [] ∧ name = stem ++ dot :: sqlExtension

theorem extensionOf?_eq_sql_iff {name : Bytes} :
    extensionOf? name = some sqlExtension ↔ IsSqlName name := by
  have hback : name = (name.reverse.dropWhile (· != dot)).reverse
      ++ (name.reverse.takeWhile (· != dot)).reverse := by
    rw [← List.reverse_append, List.takeWhile_append_dropWhile, List.reverse_reverse]
  rw [extensionOf?]
  constructor
  · intro h
    split at h
    · cases h
    · next d before hdrop =>
      have hd : d = dot := by
        have := List.head?_dropWhile_not (· != dot) name.reverse
        rw [hdrop] at this
        simpa using this
      have hne : before ≠ [] := fun h0 => by rw [h0] at h; cases h
      rw [if_neg (by simpa using hne), Option.some.injEq] at h
      rw [hdrop, h, hd, List.reverse_cons, List.append_assoc, List.singleton_append] at hback
      exact ⟨before.reverse, by simpa using hne, hback⟩
  · rintro ⟨stem, hstem, rfl⟩
    have hrev : (stem ++ dot :: sqlExtension).reverse
        = sqlExtension.reverse ++ dot :: stem.reverse := by
      rw [List.reverse_append, List.reverse_cons, List.append_assoc, List.singleton_append]
    have hsql : ∀ b ∈ sqlExtension.reverse, (b != dot) = true := List.all_eq_true.1 (by decide)
    rw [hrev, List.dropWhile_append_of_pos hsql, List.takeWhile_append_of_pos hsql,
      List.dropWhile_cons_of_neg (by simp), List.takeWhile_cons_of_neg (by simp)]
    simp [hstem]

/-- **A joined path has the extension of SQL files exactly when the name is one of an SQL file.** -/
theorem isSql_join_iff {p : Path} {n : FileName} :
    (p.join n.toPath).isSql = true ↔ IsSqlName n.bytes := by
  rw [isSql, beq_iff_eq, extension?, fileName?_join, Option.bind_some, extensionOf?_eq_sql_iff]

/-- The last step, unless it is a dot, is the last segment that is not void. -/
theorem find?_not_isVoid : ∀ {back : List Bytes}, back.find? (fun s => !s.isEmpty) ≠ some [dot] →
    back.find? (fun s => !isVoid s) = back.find? fun s => !s.isEmpty
  | [], _ => rfl
  | s :: back, h => by
    by_cases hs : s = []
    · subst hs
      have h' : back.find? (fun s => !s.isEmpty) ≠ some [dot] := h
      have ih := find?_not_isVoid h'
      exact ih
    · have hfind : (s :: back).find? (fun s => !s.isEmpty) = some s :=
        List.find?_cons_of_pos (by simpa using hs)
      have hdot : s ≠ [dot] := fun h0 => h (by rw [hfind, h0])
      rw [hfind]
      exact List.find?_cons_of_pos (by simp [isVoid, hs, hdot])

/-- A path whose last step is no dot has the extension of SQL files exactly when that step is the
name of an SQL file. -/
theorem isSql_iff_of_getLast? {p : Path} (h : p.steps.getLast? ≠ some [dot]) :
    p.isSql = true ↔ ∃ s ∈ p.steps.getLast?, IsSqlName s := by
  have hsteps : p.steps.getLast? = (segments p.bytes).reverse.find? fun s => !s.isEmpty := by
    rw [steps, List.getLast?_eq_head?_reverse, ← List.filter_reverse, List.head?_filter]
  have hdots : ¬IsSqlName [dot, dot] := by
    rintro ⟨stem, -, hs⟩
    have := congrArg List.length hs
    simp [sqlExtension] at this
  rw [hsteps] at h ⊢
  rw [isSql, beq_iff_eq, extension?, fileName?, find?_not_isVoid h]
  cases (segments p.bytes).reverse.find? fun s => !s.isEmpty with
  | none => simp
  | some s =>
    by_cases hs : s = [dot, dot]
    · simp [hs, hdots]
    · simp [hs, extensionOf?_eq_sql_iff]

/-! ## Slashes behind a path -/

/-- The path with some more slashes behind it. -/
def slashed (p : Path) (n : Nat) : Path := ⟨p.bytes ++ List.replicate n slash⟩

/-- Slashes behind a path add no step. -/
theorem steps_slashed (p : Path) : ∀ n : Nat, (p.slashed n).steps = p.steps
  | 0 => by rw [slashed, List.replicate_zero, List.append_nil]
  | n + 1 => by
    rw [← steps_slashed p n, slashed, List.replicate_succ', ← List.append_assoc, steps,
      segments_append_slash, List.filter_append, segments]
    exact List.append_nil _

theorem length_slashed (p : Path) (n : Nat) : (p.slashed n).bytes.length = p.bytes.length + n := by
  rw [slashed, List.length_append, List.length_replicate]

theorem contains_nul_slashed (p : Path) (n : Nat) :
    (p.slashed n).bytes.contains 0 = p.bytes.contains 0 := by
  have hslashes : (List.replicate n slash).contains 0 = false := by simp [slash]
  rw [slashed, List.contains_append, hslashes, Bool.or_false]

/-! ## Names below a path -/

/-- The path of the place that some names lead to from a path. -/
def below (p : Path) (names : List FileName) : Path := names.foldl (fun q n => q.join n.toPath) p

@[simp] theorem below_nil (p : Path) : p.below [] = p := rfl

@[simp] theorem below_cons (p : Path) (n : FileName) (names : List FileName) :
    p.below (n :: names) = (p.join n.toPath).below names := rfl

theorem below_append (p : Path) (names more : List FileName) :
    p.below (names ++ more) = (p.below names).below more := List.foldl_append

/-- The steps of a path below are those of the path and then the names. -/
theorem steps_below : ∀ (p : Path) (names : List FileName),
    (p.below names).steps = p.steps ++ names.map FileName.bytes
  | p, [] => by simp
  | p, n :: names => by
    rw [below_cons, steps_below, steps_join, List.append_assoc, List.map_cons,
      List.singleton_append]

/-- Names below a path are told apart by the steps of their paths. -/
theorem steps_below_injective {p : Path} {names names' : List FileName}
    (h : (p.below names).steps = (p.below names').steps) : names = names' := by
  rw [steps_below, steps_below, List.append_cancel_left_eq] at h
  exact (List.map_inj_right fun _ _ => FileName.ext).1 h

/-- **Names below a path are told apart by their paths.** -/
theorem below_injective {p : Path} {names names' : List FileName}
    (h : p.below names = p.below names') : names = names' :=
  steps_below_injective (congrArg steps h)

/-- A path below starts at the root exactly when the path does. -/
theorem isAbsolute_below : ∀ {p : Path}, p.bytes ≠ [] → ∀ names : List FileName,
    (p.below names).isAbsolute = p.isAbsolute
  | _, _, [] => rfl
  | p, hp, n :: names =>
    (isAbsolute_below (bytes_join_ne_nil p n) names).trans (isAbsolute_join hp n)

/-- The path is `p` or lies below it, as far as its steps tell: it takes those of `p` first. -/
def isWithin (q p : Path) : Bool := q.isAbsolute == p.isAbsolute && p.steps.isPrefixOf q.steps

/-- **What lies below a path lies within another place below it when it has the names of that place
first.** -/
theorem isWithin_below_iff {p : Path} (hp : p.bytes ≠ []) {names more : List FileName} :
    (p.below more).isWithin (p.below names) = true ↔ names <+: more := by
  have hsteps : (p.below names).steps <+: (p.below more).steps ↔ names <+: more := by
    rw [steps_below, steps_below, List.prefix_append_right_inj]
    exact List.prefix_map_iff_of_injective fun _ _ => FileName.ext
  rw [isWithin, isAbsolute_below hp, isAbsolute_below hp, beq_self_eq_true, Bool.true_and,
    List.isPrefixOf_iff_prefix, hsteps]

end Path

end SqlSanity
