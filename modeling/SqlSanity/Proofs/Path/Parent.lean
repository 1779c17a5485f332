import SqlSanity.Path.Ancestors
import SqlSanity.Proofs.Path.Join

/-!
# Proofs/Path/Parent — the chain of a path goes from parent to parent

A path is made of components: the root or the dot that it starts with, if it starts with one, and
its names, of which `..` is one.  Further slashes and dots make none, and so many paths have the
same components.  The parent of a path has all of them but the last, and of all that the path
starts with and that has these, it is the shortest.  The root is never taken off.

The chain of a path is cut from its segments in one go, without a look at any parent.  It is the
chain of parents nevertheless, and the only one.

* `Path.IsParent` — what the parent of a path is;
* `Path.parent_cases` — the chain of a path goes on with the chain of its parent;
* `Path.lineage_iff` — the chain of a path, and no other, goes from parent to parent.
-/

namespace SqlSanity.Path

variable {p q q' : Path} {bs s x : Bytes} {ss ts : List Bytes}

/-! ## Segments that are names -/

/-- The segments that are names, less what is void among them. -/
def named (ss : List Bytes) : List Bytes := ss.filter fun s => !isVoid s

theorem named_append (ss ts : List Bytes) : named (ss ++ ts) = named ss ++ named ts :=
  List.filter_append ..

theorem named_reverse (ss : List Bytes) : named ss.reverse = (named ss).reverse :=
  List.filter_reverse ..

theorem named_cons_of_isVoid (h : isVoid s = true) : named (s :: ss) = named ss :=
  List.filter_cons_of_neg (by simp [h])

theorem named_cons_of_not_isVoid (h : isVoid s = false) : named (s :: ss) = s :: named ss :=
  List.filter_cons_of_pos (by simp [h])

/-- What a void segment starts with is void. -/
theorem isVoid_of_isPrefix (h : x <+: s) (hs : isVoid s = true) : isVoid x = true := by
  rcases isVoid_iff.1 hs with rfl | rfl
  · rw [List.prefix_nil.1 h]
    rfl
  · rcases x with - | ⟨b, x⟩
    · rfl
    · obtain ⟨rfl, hx⟩ := List.cons_prefix_cons.1 h
      rw [List.prefix_nil.1 hx]
      rfl

/-- Nothing void stands behind the last name. -/
def IsTrimmed (ss : List Bytes) : Prop := ∀ s ∈ ss.getLast?, isVoid s = false

theorem IsTrimmed.of_append (h : IsTrimmed (ss ++ ts)) : IsTrimmed ts := fun s hs => by
  refine h s ?_
  rw [Option.mem_def] at hs ⊢
  rw [List.getLast?_append, hs, Option.some_or]

/-- Where nothing void stands behind the last name and there is no name, there is nothing. -/
theorem IsTrimmed.eq_nil (h : IsTrimmed ss) (hnamed : named ss = []) : ss = [] := by
  rcases List.eq_nil_or_concat ss with rfl | ⟨init, s, rfl⟩
  · rfl
  · have hs : isVoid s = false := h s (by simp)
    rw [List.concat_eq_append, named_append, named_cons_of_not_isVoid hs] at hnamed
    exact absurd (List.append_eq_nil_iff.1 hnamed).2 (List.cons_ne_nil _ _)

/-! ## Cutting off names -/

theorem trimVoid_cons (s : Bytes) (back : List Bytes) :
    trimVoid (s :: back) = if isVoid s then trimVoid back else s :: back :=
  List.dropWhile_cons

theorem named_trimVoid : ∀ back : List Bytes, named (trimVoid back) = named back
  | [] => rfl
  | s :: back => by
    rw [trimVoid_cons]
    cases hs : isVoid s with
    | true => rw [if_pos rfl, named_trimVoid back, named_cons_of_isVoid hs]
    | false => rw [if_neg Bool.false_ne_true]

theorem withoutNames_trimVoid : ∀ back : List Bytes,
    withoutNames (trimVoid back) = withoutNames back
  | [] => rfl
  | s :: back => by
    rw [trimVoid_cons]
    cases hs : isVoid s with
    | true => rw [if_pos rfl, withoutNames_trimVoid back, withoutNames, hs, if_pos rfl]
    | false => rw [if_neg Bool.false_ne_true]

theorem isTrimmed_trimVoid (back : List Bytes) : IsTrimmed (trimVoid back).reverse := by
  intro s hs
  have hhead := List.head?_dropWhile_not isVoid back
  rw [List.getLast?_reverse, trimVoid] at hs
  rw [Option.mem_def.1 hs] at hhead
  simpa using hhead

/-- **Each cut takes off the last name** with all that is void around it, and the next one cuts what
is left.  Without a name there is no cut. -/
theorem withoutNames_cases : ∀ back : List Bytes,
    withoutNames back = [] ∧ named back = [] ∨
      ∃ s rest, withoutNames back = rest :: withoutNames rest ∧ named back = s :: named rest ∧
        rest <:+ back ∧ IsTrimmed rest.reverse
  | [] => .inl ⟨rfl, rfl⟩
  | s :: back => by
    rw [withoutNames]
    cases hs : isVoid s with
    | true =>
      rw [if_pos rfl, named_cons_of_isVoid hs]
      refine (withoutNames_cases back).imp_right ?_
      rintro ⟨t, rest, hcut, hnamed, hrest, htrim⟩
      exact ⟨t, rest, hcut, hnamed, hrest.trans (List.suffix_cons s back), htrim⟩
    | false =>
      refine .inr ⟨s, trimVoid back, ?_, ?_, ?_, isTrimmed_trimVoid back⟩
      · rw [if_neg Bool.false_ne_true, withoutNames_trimVoid]
      · rw [named_cons_of_not_isVoid hs, named_trimVoid]
      · exact (List.dropWhile_suffix _).trans (List.suffix_cons s back)

/-! ## Beginnings of segments -/

theorem slash_not_mem_dot_cons (h : ∀ s ∈ ss, slash ∉ s) : ∀ s ∈ [dot] :: ss, slash ∉ s :=
  List.forall_mem_cons.2 ⟨by decide, h⟩

theorem named_segments_unite (h : ∀ s ∈ ss, slash ∉ s) :
    named (segments (unite ss)) = named ss := by
  rcases ss with - | ⟨s, ss⟩
  · rfl
  · rw [segments_unite (List.cons_ne_nil s ss) h]

/-- The first of some segments spell a beginning of what all of them spell. -/
theorem unite_isPrefix : ∀ {ss ts : List Bytes}, ss <+: ts → unite ss <+: unite ts
  | [], _, _ => List.nil_prefix
  | [s], _, h => by
    obtain ⟨more, rfl⟩ := h
    cases more with
    | nil => exact List.prefix_rfl
    | cons t more => exact List.prefix_append s _
  | s :: t :: ss, _, h => by
    obtain ⟨more, rfl⟩ := h
    have ih := unite_isPrefix (List.prefix_append (t :: ss) more)
    exact (List.prefix_append_right_inj s).2 (List.cons_prefix_cons.2 ⟨rfl, ih⟩)

/-- A beginning of some bytes has the first of their segments, and then a beginning of one more. -/
theorem exists_segments_of_isPrefix : ∀ {as bs : Bytes}, as <+: bs →
    ∃ init x s more, segments as = init ++ [x] ∧ segments bs = init ++ s :: more ∧ x <+: s
  | [], bs, _ => by
    obtain ⟨s, more, hs⟩ := List.exists_cons_of_ne_nil (segments_ne_nil bs)
    exact ⟨[], [], s, more, rfl, hs, List.nil_prefix⟩
  | a :: as, [], h => absurd (List.prefix_nil.1 h) (List.cons_ne_nil _ _)
  | a :: as, b :: bs, h => by
    obtain ⟨rfl, h'⟩ := List.cons_prefix_cons.1 h
    obtain ⟨init, x, s, more, has, hbs, hx⟩ := exists_segments_of_isPrefix h'
    by_cases ha : a = slash
    · refine ⟨[] :: init, x, s, more, ?_, ?_, hx⟩
      · rw [ha, segments_slash, has, List.cons_append]
      · rw [ha, segments_slash, hbs, List.cons_append]
    · -- the byte belongs to the first segment, which may be the one that is broken off
      cases init with
      | nil =>
        exact ⟨[], a :: x, a :: s, more, segments_cons ha has, segments_cons ha hbs,
          List.cons_prefix_cons.2 ⟨rfl, hx⟩⟩
      | cons i init =>
        exact ⟨(a :: i) :: init, x, s, more, segments_cons ha has, segments_cons ha hbs, hx⟩

/-- **Nothing can be cut off a last name without a loss**: a beginning that has the same names is
the whole. -/
theorem eq_unite_of_isPrefix (hss : ∀ s ∈ ss, slash ∉ s) (htrim : IsTrimmed ss)
    (h : bs <+: unite ss) (hnamed : named (segments bs) = named ss) : bs = unite ss := by
  by_cases hne : ss = []
  · rw [hne] at h ⊢
    exact List.prefix_nil.1 h
  obtain ⟨init, x, s, more, hbs, hunite, hx⟩ := exists_segments_of_isPrefix h
  rw [segments_unite hne hss] at hunite
  rw [hbs, hunite, named_append, named_append, List.append_cancel_left_eq] at hnamed
  have htail : IsTrimmed ([s] ++ more) := (hunite ▸ htrim).of_append
  -- a void `x` would leave no name from `s` on, but the last segment is one
  have hvoid : isVoid x = false := by
    rw [← Bool.not_eq_true]
    intro hx'
    rw [named_cons_of_isVoid hx'] at hnamed
    exact absurd (htail.eq_nil hnamed.symm) (List.cons_ne_nil s more)
  have hs : isVoid s = false := by
    rw [← Bool.not_eq_true] at hvoid ⊢
    exact mt (isVoid_of_isPrefix hx) hvoid
  rw [named_cons_of_not_isVoid hvoid, named_cons_of_not_isVoid hs] at hnamed
  obtain ⟨rfl, hmore⟩ := List.cons.inj hnamed
  rw [htail.of_append.eq_nil hmore.symm] at hunite
  rw [← unite_segments bs, hbs, hunite]

/-! ## Components -/

/-- A component of a path: the root or the dot that it starts with, or a name. -/
inductive Component
  | root
  | dot
  | name (bytes : Bytes)
  deriving DecidableEq, Repr

/-- What a path can start with: the root, a dot, or nothing before its first name. -/
inductive Start
  | root
  | dot
  | bare
  deriving DecidableEq, Repr

/-- The component that the start of a path makes. -/
def Start.components : Start → List Component
  | root => [.root]
  | dot => [.dot]
  | bare => []

/-- What a path starts with. -/
def start (p : Path) : Start :=
  if p.isAbsolute then .root else if (segments p.bytes).head? = some [dot] then .dot else .bare

/-- The components of a path: its start, and then its names. -/
def components (p : Path) : List Component :=
  p.start.components ++ (named (segments p.bytes)).map .name

/-- Paths with the same components start in the same way and have the same names. -/
theorem components_eq_iff : p.components = q.components ↔
    p.start = q.start ∧ named (segments p.bytes) = named (segments q.bytes) := by
  have hname {ss ts : List Bytes} : ss.map Component.name = ts.map .name ↔ ss = ts :=
    List.map_inj_right fun _ _ => Component.name.inj
  have hlead {c : Component} {cs : List Component} {ss : List Bytes}
      (h : c :: cs = ss.map .name) : c ≠ .root ∧ c ≠ .dot := by
    obtain ⟨s, ss, -, rfl, -⟩ := List.map_eq_cons_iff.1 h.symm
    exact ⟨nofun, nofun⟩
  rw [components, components]
  constructor
  · intro h
    cases hp : p.start <;> cases hq : q.start <;> rw [hp, hq] at h
    case root.root | dot.dot | bare.bare => exact ⟨rfl, hname.1 (List.append_cancel_left h)⟩
    case root.dot | dot.root => cases h
    case root.bare => exact absurd rfl (hlead h).1
    case dot.bare => exact absurd rfl (hlead h).2
    case bare.root => exact absurd rfl (hlead h.symm).1
    case bare.dot => exact absurd rfl (hlead h.symm).2
  · rintro ⟨hstart, hnamed⟩
    rw [hstart, hnamed]

/-! ## Spellings

Every path is spelled by its start and the segments behind it. -/

namespace Start

variable {a : Start}

/-- The path that starts so and goes on with segments. -/
def spell : Start → List Bytes → Path
  | root, ss => ⟨slash :: unite ss⟩
  | dot, ss => ⟨unite ([Path.dot] :: ss)⟩
  | bare, ss => ⟨unite ss⟩

/-- The segments can stand behind the start of a path: no segment has a slash in it, and where
nothing stands before them, the first is a name. -/
structure Fits (a : Start) (ss : List Bytes) : Prop where
  slash_not_mem : ∀ s ∈ ss, slash ∉ s
  head : a = .bare → ∀ s ∈ ss.head?, isVoid s = false

theorem Fits.of_isPrefix (h : a.Fits ss) (hts : ts <+: ss) : a.Fits ts where
  slash_not_mem s hs := h.slash_not_mem s (hts.subset hs)
  head ha s hs := by
    obtain ⟨more, rfl⟩ := hts
    refine h.head ha s ?_
    rw [Option.mem_def, List.head?_append, Option.mem_def.1 hs, Option.some_or]

/-- A first name starts with neither a slash nor a single dot. -/
theorem Fits.exists_cons (h : Fits .bare (s :: ss)) :
    ∃ b s', s = b :: s' ∧ b ≠ slash ∧ s ≠ [Path.dot] := by
  obtain ⟨hne, hdot⟩ := isVoid_eq_false_iff.1 (h.head rfl s rfl)
  obtain ⟨b, s', rfl⟩ := List.exists_cons_of_ne_nil hne
  have hslash : slash ∉ b :: s' := h.slash_not_mem _ List.mem_cons_self
  exact ⟨b, s', rfl, fun hb => hslash (hb ▸ List.mem_cons_self), hdot⟩

/-- A path starts as it is spelled. -/
theorem Fits.start_spell (h : a.Fits ss) : (a.spell ss).start = a := by
  cases a with
  | root => rfl
  | dot =>
    have habsolute : (spell dot ss).isAbsolute = false := by cases ss <;> rfl
    rw [start, habsolute, if_neg Bool.false_ne_true, spell,
      segments_unite (List.cons_ne_nil _ _) (slash_not_mem_dot_cons h.slash_not_mem),
      List.head?_cons, if_pos rfl]
  | bare =>
    cases ss with
    | nil => rfl
    | cons s ss =>
      obtain ⟨b, s', rfl, hb, hdot⟩ := h.exists_cons
      have habsolute : (spell bare ((b :: s') :: ss)).isAbsolute = (some b == some slash) := by
        cases ss <;> rfl
      rw [start, habsolute, if_neg (by simpa using hb), spell,
        segments_unite (List.cons_ne_nil _ _) h.slash_not_mem, List.head?_cons,
        if_neg fun h => hdot (Option.some.inj h)]

/-- The names of a path are those among the segments behind its start. -/
theorem Fits.named_spell (h : a.Fits ss) : named (segments (a.spell ss).bytes) = named ss := by
  cases a with
  | root =>
    rw [spell, segments_slash, named_cons_of_isVoid rfl, named_segments_unite h.slash_not_mem]
  | dot =>
    rw [spell, named_segments_unite (slash_not_mem_dot_cons h.slash_not_mem),
      named_cons_of_isVoid rfl]
  | bare => rw [spell, named_segments_unite h.slash_not_mem]

theorem Fits.components_spell (h : a.Fits ss) :
    (a.spell ss).components = a.components ++ (named ss).map .name := by
  rw [Path.components, h.start_spell, h.named_spell]

/-- With the first of its segments, a path is spelled up to some place in it. -/
theorem spell_isPrefix (a : Start) (h : ts <+: ss) : (a.spell ts).bytes <+: (a.spell ss).bytes := by
  cases a with
  | root => exact List.cons_prefix_cons.2 ⟨rfl, unite_isPrefix h⟩
  | dot => exact unite_isPrefix (List.cons_prefix_cons.2 ⟨rfl, h⟩)
  | bare => exact unite_isPrefix h

/-- Where nothing void stands behind the last name, a spelling that starts in the same way, has the
same names and is a beginning of the path is the whole path. -/
theorem Fits.spell_eq_of_isPrefix (h : a.Fits ss) (h' : a.Fits ts) (htrim : IsTrimmed ss)
    (hbegin : (a.spell ts).bytes <+: (a.spell ss).bytes) (hnamed : named ts = named ss) :
    a.spell ts = a.spell ss := by
  have hsegments : named (segments (unite ts)) = named ss := by
    rw [named_segments_unite h'.slash_not_mem, hnamed]
  cases a with
  | root =>
    have htail : unite ts <+: unite ss := (List.cons_prefix_cons.1 hbegin).2
    exact congrArg (fun bs => Path.mk (slash :: bs))
      (eq_unite_of_isPrefix h.slash_not_mem htrim htail hsegments)
  | dot =>
    refine congrArg Path.mk ?_
    cases ss with
    | nil =>
      -- the dot is void, and yet it cannot be cut off, since every spelling has it
      have hdot : unite [[Path.dot]] <+: unite ([Path.dot] :: ts) :=
        unite_isPrefix (List.cons_prefix_cons.2 ⟨rfl, List.nil_prefix⟩)
      exact hbegin.eq_of_length_le hdot.length_le
    | cons s ss =>
      have htrim' : IsTrimmed ([Path.dot] :: s :: ss) := by
        rwa [IsTrimmed, List.getLast?_cons_cons]
      exact eq_unite_of_isPrefix (slash_not_mem_dot_cons h.slash_not_mem) htrim' hbegin
        (h'.named_spell.trans (hnamed.trans (named_cons_of_isVoid rfl).symm))
  | bare => exact congrArg Path.mk (eq_unite_of_isPrefix h.slash_not_mem htrim hbegin hsegments)

end Start

/-- Every path is spelled by a start and segments. -/
theorem exists_spell (p : Path) : ∃ (a : Start) (ss : List Bytes), a.Fits ss ∧ p = a.spell ss := by
  obtain ⟨bs⟩ := p
  cases bs with
  | nil => exact ⟨.bare, [], ⟨by simp, by simp⟩, rfl⟩
  | cons b bs =>
    by_cases hb : b = slash
    · refine ⟨.root, segments bs, ⟨slash_not_mem_segments, nofun⟩, ?_⟩
      rw [Start.spell, unite_segments, hb]
    obtain ⟨s, ss, hs⟩ := List.exists_cons_of_ne_nil (segments_ne_nil bs)
    have hsegments : segments (b :: bs) = (b :: s) :: ss := segments_cons hb hs
    have hslash : ∀ t ∈ (b :: s) :: ss, slash ∉ t := hsegments ▸ slash_not_mem_segments
    by_cases hdot : b :: s = [dot]
    · refine ⟨.dot, ss, ⟨(List.forall_mem_cons.1 hslash).2, nofun⟩, ?_⟩
      rw [Start.spell, ← hdot, ← hsegments, unite_segments]
    · refine ⟨.bare, (b :: s) :: ss, ⟨hslash, fun _ t ht => ?_⟩, ?_⟩
      · obtain rfl := Option.some.inj ht
        exact isVoid_eq_false_iff.2 ⟨List.cons_ne_nil b s, hdot⟩
      · rw [Start.spell, ← hsegments, unite_segments]

/-- **A beginning of a path that has all its components is the whole path**, where nothing void
stands behind the last name. -/
theorem Start.Fits.eq_spell_of_isPrefix {a : Start} (h : a.Fits ss) (htrim : IsTrimmed ss)
    (hbegin : p.bytes <+: (a.spell ss).bytes)
    (hcomponents : p.components = (a.spell ss).components) : p = a.spell ss := by
  obtain ⟨b, ts, hts, rfl⟩ := exists_spell p
  obtain ⟨hstart, hnames⟩ := components_eq_iff.1 hcomponents
  rw [hts.start_spell, h.start_spell] at hstart
  subst hstart
  rw [hts.named_spell, h.named_spell] at hnames
  exact h.spell_eq_of_isPrefix hts htrim hbegin hnames

/-! ## The chain of a spelling -/

/-- The paths above one that does not start at the root, by its segments. -/
theorem properAncestors_of_segments {b : UInt8} (hb : b ≠ slash)
    (h : segments (b :: bs) = s :: ss) : properAncestors ⟨b :: bs⟩ =
      if s == [dot] then
        (withoutNames ss.reverse).map (fun back => ⟨unite ([dot] :: back.reverse)⟩) ++ [⟨[]⟩]
      else (withoutNames (s :: ss).reverse).map fun back => ⟨unite back.reverse⟩ := by
  have hslash : (b == slash) = false := beq_eq_false_iff_ne.2 hb
  simp only [properAncestors, hslash, h, Bool.false_eq_true, if_false]

theorem exists_unite_cons (b : UInt8) (s : Bytes) (ss : List Bytes) :
    ∃ more, unite ((b :: s) :: ss) = b :: more := by
  cases ss <;> exact ⟨_, rfl⟩

namespace Start

variable {a : Start}

/-- What is above the start of a path: the empty path is above the dot. -/
def above : Start → List Path
  | root => []
  | dot => [⟨[]⟩]
  | bare => []

/-- **Above a path are what the cuts leave of it, and what is above its start.** -/
theorem Fits.properAncestors_spell (h : a.Fits ss) : (a.spell ss).properAncestors =
    (withoutNames ss.reverse).map (fun back => a.spell back.reverse) ++ a.above := by
  cases a with
  | root =>
    have hcuts : withoutNames (segments (unite ss)).reverse = withoutNames ss.reverse := by
      cases ss with
      | nil => rfl
      | cons s ss => rw [segments_unite (List.cons_ne_nil s ss) h.slash_not_mem]
    rw [above, List.append_nil, ← hcuts]
    rfl
  | dot =>
    have hsegments : segments (unite ([Path.dot] :: ss)) = [Path.dot] :: ss :=
      segments_unite (List.cons_ne_nil _ _) (slash_not_mem_dot_cons h.slash_not_mem)
    obtain ⟨more, hmore⟩ := exists_unite_cons Path.dot [] ss
    rw [hmore] at hsegments
    rw [spell, hmore, properAncestors_of_segments (by decide) hsegments,
      if_pos (beq_self_eq_true _)]
    rfl
  | bare =>
    cases ss with
    | nil => rfl
    | cons s ss =>
      obtain ⟨b, s', rfl, hb, hdot⟩ := h.exists_cons
      have hsegments := segments_unite (List.cons_ne_nil _ _) h.slash_not_mem
      obtain ⟨more, hmore⟩ := exists_unite_cons b s' ss
      rw [hmore] at hsegments
      rw [spell, hmore, properAncestors_of_segments hb hsegments, if_neg (by simpa using hdot),
        above, List.append_nil]
      rfl

end Start

/-! ## Parents -/

/-- The parent of a path: it has all components of the path but the last, which is not the root, and
of all that the path starts with and that has these components, it is the shortest. -/
structure IsParent (q p : Path) : Prop where
  components : ∃ c, c ≠ .root ∧ p.components = q.components ++ [c]
  isPrefix : q.bytes <+: p.bytes
  length_le : ∀ r : Path, r.bytes <+: p.bytes → r.components = q.components →
    q.bytes.length ≤ r.bytes.length

/-- There is one parent at most. -/
theorem IsParent.unique (h : q.IsParent p) (h' : q'.IsParent p) : q = q' := by
  obtain ⟨c, -, hc⟩ := h.components
  obtain ⟨c', -, hc'⟩ := h'.components
  have hsame : q.components = q'.components := (List.append_inj' (hc.symm.trans hc') rfl).1
  have hle : q.bytes.length ≤ q'.bytes.length := h.length_le q' h'.isPrefix hsame.symm
  have hge : q'.bytes.length ≤ q.bytes.length := h'.length_le q h.isPrefix hsame
  have hbytes : q.bytes = q'.bytes :=
    (List.prefix_of_prefix_length_le h.isPrefix h'.isPrefix hle).eq_of_length
      (Nat.le_antisymm hle hge)
  exact congrArg Path.mk hbytes

/-- **What is left without the last name is the parent**, when all that is void before that name
goes with it. -/
theorem Start.Fits.isParent_spell {a : Start} (h : a.Fits ss) (hts : ts <+: ss)
    (htrim : IsTrimmed ts) (hnamed : named ss = named ts ++ [s]) :
    (a.spell ts).IsParent (a.spell ss) where
  components := by
    refine ⟨.name s, nofun, ?_⟩
    rw [h.components_spell, (h.of_isPrefix hts).components_spell, hnamed, List.map_append,
      List.append_assoc, List.map_singleton]
  isPrefix := a.spell_isPrefix hts
  length_le r hr hcomponents := by
    rcases List.prefix_or_prefix_of_prefix (a.spell_isPrefix hts) hr with hle | hle
    · exact hle.length_le
    · obtain rfl := (h.of_isPrefix hts).eq_spell_of_isPrefix htrim hle hcomponents
      exact Nat.le_refl _

/-- **The chain of a path goes on with the chain of its parent**, and ends where there is none. -/
theorem parent_cases (p : Path) : (p.properAncestors = [] ∧ ∀ q : Path, ¬q.IsParent p) ∨
    ∃ q : Path, q.IsParent p ∧ p.properAncestors = q.ancestors := by
  obtain ⟨a, ss, hfits, rfl⟩ := exists_spell p
  rw [hfits.properAncestors_spell]
  rcases withoutNames_cases ss.reverse with ⟨hcut, hnamed⟩ | ⟨s, rest, hcut, hnamed, hrest, htrim⟩
  · have hcomponents : (a.spell ss).components = a.components := by
      rw [named_reverse, List.reverse_eq_nil_iff] at hnamed
      rw [hfits.components_spell, hnamed, List.map_nil, List.append_nil]
    rw [hcut]
    cases a with
    | root =>
      refine .inl ⟨rfl, fun q hq => ?_⟩
      obtain ⟨c, hc, hq⟩ := hq.components
      have hroot : [] ++ [.root] = q.components ++ [c] := hcomponents.symm.trans hq
      exact hc (List.cons.inj (List.append_inj' hroot rfl).2).1.symm
    | dot =>
      exact .inr ⟨⟨[]⟩, ⟨⟨.dot, nofun, hcomponents⟩, List.nil_prefix, fun _ _ _ => Nat.zero_le _⟩,
        rfl⟩
    | bare =>
      refine .inl ⟨rfl, fun q hq => ?_⟩
      obtain ⟨c, -, hq⟩ := hq.components
      exact List.append_ne_nil_of_right_ne_nil _ (List.cons_ne_nil c [])
        (hq.symm.trans hcomponents)
  · have hts : rest.reverse <+: ss := by rwa [← List.reverse_suffix, List.reverse_reverse]
    rw [named_reverse, List.reverse_eq_iff, List.reverse_cons, ← named_reverse] at hnamed
    refine .inr ⟨a.spell rest.reverse, hfits.isParent_spell hts htrim hnamed, ?_⟩
    rw [hcut, ancestors, (hfits.of_isPrefix hts).properAncestors_spell, List.reverse_reverse]
    rfl

/-- Above a path are its parent and what is above that. -/
theorem IsParent.properAncestors_eq (h : q.IsParent p) : p.properAncestors = q.ancestors := by
  rcases parent_cases p with ⟨-, hnone⟩ | ⟨q', hq', habove⟩
  · exact absurd h (hnone q)
  · rw [habove, h.unique hq']

/-- What is above a path is in the chain of its parent. -/
theorem exists_parent_of_mem {m : Path} (hm : m ∈ p.properAncestors) :
    ∃ q : Path, q.IsParent p ∧ m ∈ q.ancestors := by
  rcases parent_cases p with ⟨hnil, -⟩ | ⟨q, hq, habove⟩
  · rw [hnil] at hm
    exact absurd hm List.not_mem_nil
  · exact ⟨q, hq, habove ▸ hm⟩

/-! ## Lineages -/

/-- A path, its parent, the parent of that, and so on up to a path that has no parent. -/
inductive Lineage : Path → List Path → Prop
  | last {p : Path} (orphan : ∀ q : Path, ¬q.IsParent p) : Lineage p [p]
  | step {p q : Path} {chain : List Path} (parent : q.IsParent p) (above : Lineage q chain) :
      Lineage p (p :: chain)

theorem lineage_of_properAncestors : ∀ {chain : List Path} {p : Path},
    p.properAncestors = chain → p.Lineage (p :: chain)
  | [], p, h => by
    rcases parent_cases p with ⟨-, hnone⟩ | ⟨q, -, habove⟩
    · exact .last hnone
    · exact absurd (habove.symm.trans h) (List.cons_ne_nil _ _)
  | q :: chain, p, h => by
    rcases parent_cases p with ⟨hnil, -⟩ | ⟨q', hq', habove⟩
    · exact absurd (h.symm.trans hnil) (List.cons_ne_nil _ _)
    · obtain ⟨rfl, rfl⟩ := List.cons.inj (h.symm.trans habove)
      exact .step hq' (lineage_of_properAncestors rfl)

/-- **The chain of a path, and no other, goes from parent to parent** up to one that has none. -/
theorem lineage_iff {chain : List Path} : p.Lineage chain ↔ chain = p.ancestors := by
  constructor
  · intro h
    induction h with
    | @last p orphan =>
      rcases parent_cases p with ⟨hnil, -⟩ | ⟨q, hq, -⟩
      · rw [ancestors, hnil]
      · exact absurd hq (orphan q)
    | step parent _ ih => rw [ih, ← parent.properAncestors_eq, ancestors]
  · rintro rfl
    exact lineage_of_properAncestors rfl

/-- Two dots are a name, the dot in front is above them, and the empty path is above the dot. -/
example : (ofString ".//a/..//./b/").ancestors =
    [".//a/..//./b/", ".//a/..", ".//a", ".", ""].map ofString := by decide

end SqlSanity.Path
