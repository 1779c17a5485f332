import SqlSanity.Proofs.Arguments.Step

/-!
# Proofs/Arguments/Parsing — a command line is read exactly when it is one

After some arguments the reading stands at the end of written items, or right behind an option that
waits for its value, or it holds a value that will be refused.  One more argument keeps this so, and
an item that is written and for which there is room takes the reading from the first kind of place
to the next one.

* `Level.Holds` — where the reading of a level can stand;
* `Level.Holds.step` — one more argument;
* `Level.exists_accepts_of_writtenOut` — items that are written are taken;
* `Invocation.ofArguments_eq_ok_iff` — a whole command line.
-/

namespace SqlSanity

namespace Item

variable {item : Item} {items rest : List Item} {ws words : List Bytes}

theorem WrittenOut.append {more : List Bytes} (h : WrittenOut items words)
    (hrest : WrittenOut rest more) : WrittenOut (items ++ rest) (words ++ more) := by
  induction h with
  | nil => exact hrest
  | cons head _ ih =>
    rw [List.append_assoc]
    exact .cons head ih

theorem WrittenOut.concat (h : WrittenOut items words) (hitem : item.Written ws) :
    WrittenOut (items ++ [item]) (words ++ ws) := by
  have hone : WrittenOut [item] (ws ++ []) := .cons hitem .nil
  rw [List.append_nil] at hone
  exact h.append hone

/-- The first path of items that hold one at most is the one they hold. -/
theorem findSome?_path?_eq_some_iff {p : Path} (h : (items.filterMap path?).length ≤ 1) :
    items.findSome? path? = some p ↔ ∃ v, .path v ∈ items ∧ p = ⟨v⟩ := by
  have hmem : p ∈ items.filterMap path? ↔ ∃ v, .path v ∈ items ∧ p = ⟨v⟩ := by
    rw [List.mem_filterMap]
    constructor
    · rintro ⟨item, hitem, hp⟩
      match item, hp with
      | .path v, hp => exact ⟨v, hitem, (Option.some.inj hp).symm⟩
    · rintro ⟨v, hv, rfl⟩
      exact ⟨_, hv, rfl⟩
  rw [← hmem, ← List.head?_filterMap]
  match items.filterMap path?, h with
  | [], _ => simp
  | [q], _ => simp [eq_comm]

end Item

namespace Level

variable {l : Level} {p p' : Progress} {g : Given} {w : Bytes} {words ws : List Bytes}
  {item : Item} {items : List Item}

/-! ## What is read is written -/

/-- **Where the reading of a level can stand** after some arguments: at the end of items, behind an
option that waits for its value, or with a value that will be refused. -/
inductive Holds (l : Level) : List Bytes → Progress → Prop
  | settled {items : List Item} {words : List Bytes} {p : Progress}
      (hwords : Item.WrittenOut items words) (hitems : l.Admits items)
      (hp : p.settle = .ok (.ofItems items)) : Holds l words p
  | root {items : List Item} {words : List Bytes} (hwords : Item.WrittenOut items words)
      (hitems : l.Admits items) :
      Holds l (words ++ [OptionName.root.word]) ⟨.ofItems items, some (.root none)⟩
  | directory {items : List Item} {words : List Bytes} (hwords : Item.WrittenOut items words)
      (hitems : l.Admits items) (hl : l = .command .scan) :
      Holds l (words ++ [OptionName.directory.word]) ⟨.ofItems items, some (.directory none)⟩
  | broken {words : List Bytes} {p : Progress} {r : Refusal} (hwaiting : p.isWaiting = false)
      (hp : p.settle = .error r) : Holds l words p

/-- Where all values are good, items have been read. -/
theorem Holds.exists_items (h : l.Holds words p) (hp : p.settle = .ok g) :
    ∃ items, Item.WrittenOut items words ∧ l.Admits items ∧ g = .ofItems items := by
  cases h with
  | settled hwords hitems hsettle =>
    exact ⟨_, hwords, hitems, Except.ok.inj (hp.symm.trans hsettle)⟩
  | root | directory => cases hp
  | broken _ hsettle => cases hp.symm.trans hsettle

/-- The reading stands behind one more item, when its value is good, and else it holds a value that
will be refused. -/
theorem Holds.of_settle (hwaiting : p.isWaiting = false) (h : ∀ g, p.settle = .ok g →
    ∃ items, Item.WrittenOut items words ∧ l.Admits items ∧ g = .ofItems items) :
    l.Holds words p := by
  cases hp : p.settle with
  | error r => exact .broken hwaiting hp
  | ok g =>
    obtain ⟨items, hwords, hitems, rfl⟩ := h g hp
    exact .settled hwords hitems hp

/-- **One more argument** keeps the reading in one of these places. -/
theorem Holds.step (h : l.Holds words p) (hstep : l.Step p w p') : l.Holds (words ++ [w]) p' := by
  cases hstep with
  | json hp hjson =>
    obtain ⟨items, hwords, hitems, rfl⟩ := h.exists_items hp
    obtain ⟨hroom, rfl⟩ := Given.withJson_ofItems_eq_ok_iff.1 hjson
    exact .settled (hwords.concat .json) (hitems.concat hroom) rfl
  | root hp =>
    obtain ⟨items, hwords, hitems, rfl⟩ := h.exists_items hp
    exact .root hwords hitems
  | rootWith hp hroot =>
    obtain ⟨items, hwords, hitems, rfl⟩ := h.exists_items hp
    obtain ⟨hv, hroom, rfl⟩ := Given.withRoot_ofItems_eq_ok_iff.1 hroot
    exact .settled (hwords.concat (.rootAttached hv)) (hitems.concat hroom) rfl
  | directory hl hp =>
    obtain ⟨items, hwords, hitems, rfl⟩ := h.exists_items hp
    exact .directory hwords hitems hl
  | directoryWith hl hp hdirectory =>
    obtain ⟨items, hwords, hitems, rfl⟩ := h.exists_items hp
    obtain ⟨name, rfl, rfl⟩ := Given.withDirectory_ofItems_eq_ok_iff.1 hdirectory
    exact .settled (hwords.concat .directoryAttached) (hitems.concat hl) rfl
  | value halone hsupplied =>
    -- only behind an option is there something to supply
    cases h with
    | settled _ _ hp =>
      rw [Progress.supplied?_of_settle hp] at hsupplied
      cases hsupplied
    | broken hwaiting _ =>
      rw [← Progress.isSome_supplied? p w, hsupplied] at hwaiting
      cases hwaiting
    | root hwords hitems =>
      obtain rfl := Option.some.inj hsupplied
      refine .of_settle rfl fun g hroot => ?_
      obtain ⟨hv, hroom, rfl⟩ := Given.withRoot_ofItems_eq_ok_iff.1 hroot
      rw [List.append_assoc]
      exact ⟨_, hwords.concat (.rootApart hv halone), hitems.concat hroom, rfl⟩
    | directory hwords hitems hl =>
      obtain rfl := Option.some.inj hsupplied
      refine .of_settle rfl fun g hdirectory => ?_
      obtain ⟨name, rfl, rfl⟩ := Given.withDirectory_ofItems_eq_ok_iff.1 hdirectory
      rw [List.append_assoc]
      exact ⟨_, hwords.concat (.directoryApart halone), hitems.concat hl, rfl⟩
  | path halone hl hp hpath =>
    obtain ⟨items, hwords, hitems, rfl⟩ := h.exists_items hp
    refine .of_settle rfl fun g hgiven => ?_
    obtain ⟨hv, rfl⟩ := (Given.withPath_ofItems_eq_ok_iff hpath).1 hgiven
    exact ⟨_, hwords.concat (.path hv halone), hitems.concat ⟨hl, hpath⟩, rfl⟩

/-- Any number of arguments do. -/
theorem Holds.accepts {more : List Bytes} (h : l.Holds words p) (hmore : l.Accepts p more p') :
    l.Holds (words ++ more) p' := by
  induction hmore generalizing words with
  | nil =>
    rw [List.append_nil]
    exact h
  | @cons p q p' w more hstep _ ih =>
    rw [List.append_cons]
    exact ih (h.step hstep)

/-! ## What is written is read -/

/-- An item that is written is taken, when there is room for it. -/
theorem exists_accepts_of_written (h : item.Written ws) (hp : p.settle = .ok (.ofItems items))
    (hroom : l.HasRoom items item) :
    ∃ p', l.Accepts p ws p' ∧ p'.settle = .ok (.ofItems (items ++ [item])) := by
  cases h with
  | json =>
    have hjson := Given.withJson_ofItems_eq_ok_iff.2 ⟨hroom, rfl⟩
    exact ⟨_, .cons (.json hp hjson) .nil, rfl⟩
  | rootAttached hv =>
    have hroot := Given.withRoot_ofItems_eq_ok_iff.2 ⟨hv, hroom, rfl⟩
    exact ⟨_, .cons (.rootWith hp hroot) .nil, rfl⟩
  | rootApart hv halone =>
    have hroot := Given.withRoot_ofItems_eq_ok_iff.2 ⟨hv, hroom, rfl⟩
    exact ⟨_, .cons (.root hp) (.cons (.value halone rfl) .nil), hroot⟩
  | @directoryAttached name =>
    have hdirectory : (Given.ofItems items).withDirectory (Utf8.encode name.toList) =
        .ok (.ofItems (items ++ [.directory name])) :=
      Given.withDirectory_ofItems_eq_ok_iff.2 ⟨name, rfl, rfl⟩
    exact ⟨_, .cons (.directoryWith hroom hp hdirectory) .nil, rfl⟩
  | @directoryApart name halone =>
    have hdirectory : (Given.ofItems items).withDirectory (Utf8.encode name.toList) =
        .ok (.ofItems (items ++ [.directory name])) :=
      Given.withDirectory_ofItems_eq_ok_iff.2 ⟨name, rfl, rfl⟩
    exact ⟨_, .cons (.directory hroom hp) (.cons (.value halone rfl) .nil), hdirectory⟩
  | path hv halone =>
    have hpath := (Given.withPath_ofItems_eq_ok_iff hroom.2).2 ⟨hv, rfl⟩
    exact ⟨_, .cons (.path halone hroom.1 hp hroom.2) .nil, hpath⟩

/-- **Items that are written are taken**, one after the other, when they are admitted together. -/
theorem exists_accepts_of_writtenOut {more : List Item} (h : Item.WrittenOut more words)
    (hp : p.settle = .ok (.ofItems items)) (hitems : l.Admits (items ++ more)) :
    ∃ p', l.Accepts p words p' ∧ p'.settle = .ok (.ofItems (items ++ more)) := by
  induction h generalizing items p with
  | nil =>
    rw [List.append_nil]
    exact ⟨p, .nil, hp⟩
  | @cons item more ws words head _ ih =>
    rw [List.append_cons] at hitems ⊢
    have hroom := (admits_concat_iff.1 hitems.of_append).2
    obtain ⟨q, hws, hq⟩ := exists_accepts_of_written head hp hroom
    obtain ⟨p', hwords, hp'⟩ := ih hq hitems
    exact ⟨p', hws.append hwords, hp'⟩

/-! ## Whole levels -/

/-- **Arguments are taken with good values exactly when they are admitted items.** -/
theorem exists_accepts_iff : (∃ p, l.Accepts {} words p ∧ p.settle = .ok g) ↔
    ∃ items, Item.WrittenOut items words ∧ l.Admits items ∧ g = .ofItems items := by
  constructor
  · rintro ⟨p, hwords, hp⟩
    have hnil : l.Holds [] {} := .settled .nil (admits_nil l) rfl
    exact (hnil.accepts hwords).exists_items hp
  · rintro ⟨items, hwords, hitems, rfl⟩
    have hnil : (Progress.settle {}) = .ok (.ofItems []) := rfl
    exact exists_accepts_of_writtenOut hwords hnil hitems

/-- **A level is read exactly when it is a part of admitted items.** -/
theorem read_eq_ok_iff_writtenAsPart : l.read false {} words = .ok g ↔
    ∃ items, Item.WrittenAsPart items words ∧ l.Admits items ∧ g = .ofItems items := by
  rw [read_eq_ok_iff]
  constructor
  · rintro (hbare | ⟨before, after, p, rfl, hbefore, hafter⟩)
    · obtain ⟨items, hwords, hitems, rfl⟩ := exists_accepts_iff.1 hbare
      exact ⟨items, .bare hwords, hitems, rfl⟩
    · obtain ⟨rfl, hp⟩ | ⟨v, g', rfl, hp, hl, hpath, hgiven⟩ := read_separated_eq_ok_iff.1 hafter
      · obtain ⟨items, hwords, hitems, rfl⟩ := exists_accepts_iff.1 ⟨p, hbefore, hp⟩
        exact ⟨items, .separated hwords, hitems, rfl⟩
      · obtain ⟨items, hwords, hitems, rfl⟩ := exists_accepts_iff.1 ⟨p, hbefore, hp⟩
        obtain ⟨hv, rfl⟩ := (Given.withPath_ofItems_eq_ok_iff hpath).1 hgiven
        exact ⟨_, .verbatim hwords hv, hitems.concat ⟨hl, hpath⟩, rfl⟩
  · rintro ⟨items, hpart, hitems, rfl⟩
    cases hpart with
    | bare hwords => exact .inl (exists_accepts_iff.2 ⟨_, hwords, hitems, rfl⟩)
    | separated hwords =>
      obtain ⟨p, hbefore, hp⟩ := exists_accepts_iff.2 ⟨_, hwords, hitems, rfl⟩
      exact .inr ⟨_, [], p, rfl, hbefore, read_separated_eq_ok_iff.2 (.inl ⟨rfl, hp⟩)⟩
    | @verbatim items before v hwords hv =>
      -- the path is the last item, so the items before it have room for it
      obtain ⟨hfewer, hl, hpath⟩ := admits_concat_iff.1 hitems
      obtain ⟨p, hbefore, hp⟩ := exists_accepts_iff.2 ⟨_, hwords, hfewer, rfl⟩
      have hgiven := (Given.withPath_ofItems_eq_ok_iff hpath).2 ⟨hv, rfl⟩
      exact .inr ⟨before, [v], p, rfl, hbefore,
        read_separated_eq_ok_iff.2 (.inr ⟨v, _, rfl, hp, hl, hpath, hgiven⟩)⟩

/-- Before any command there is no path to take, so nothing may stand behind a separator. -/
theorem writtenAsPart_iff_of_admits (h : program.Admits items) : Item.WrittenAsPart items words ↔
    ∃ before, (words = before ∨ words = before ++ [Word.separatorWord]) ∧
      Item.WrittenOut items before := by
  constructor
  · intro hpart
    cases hpart with
    | bare hwords => exact ⟨_, .inl rfl, hwords⟩
    | separated hwords => exact ⟨_, .inr rfl, hwords⟩
    | verbatim => exact nomatch (admits_concat_iff.1 h).2.1
  · rintro ⟨before, rfl | rfl, hwords⟩
    · exact .bare hwords
    · exact .separated hwords

end Level

namespace CommandName

variable {name : CommandName} {c : Command} {g : Given} {items : List Item} {words : List Bytes}

/-- The items after the name of a command are made into the command that they describe. -/
theorem command?_ofItems_eq_ok_iff (h : (Level.command name).Admits items) :
    name.command? (.ofItems items) = .ok c ↔ name.Describes items c := by
  have hpath : ∀ p, (Given.ofItems items).path = some p ↔ ∃ v, .path v ∈ items ∧ p = ⟨v⟩ :=
    fun p => Item.findSome?_path?_eq_some_iff h.path
  constructor
  · intro hc
    rw [command?.eq_def] at hc
    split at hc
    · cases hc
      exact .scan
    · next p hp =>
      obtain ⟨v, hv, rfl⟩ := (hpath _).1 hp
      cases hc
      exact .directory hv
    · next p hp =>
      obtain ⟨v, hv, rfl⟩ := (hpath _).1 hp
      cases hc
      exact .file hv
    · cases hc
    · cases hc
  · intro hc
    cases hc with
    | scan => rfl
    | @directory items v hv => simp only [command?.eq_def, (hpath _).2 ⟨v, hv, rfl⟩]
    | @file items v hv => simp only [command?.eq_def, (hpath _).2 ⟨v, hv, rfl⟩]

/-- **The arguments of a command are read exactly when they are a part that describes it.** -/
theorem read_eq_ok_iff : name.read words = .ok (c, g) ↔
    ∃ items, Item.WrittenAsPart items words ∧ (Level.command name).Admits items ∧
      name.Describes items c ∧ g = .ofItems items := by
  constructor
  · intro h
    obtain ⟨g', hread, h⟩ := Except.bind_eq_ok_iff.1 h
    obtain ⟨c', hc, h⟩ := Except.map_eq_ok_iff.1 h
    obtain ⟨items, hwords, hitems, rfl⟩ := Level.read_eq_ok_iff_writtenAsPart.1 hread
    obtain ⟨rfl, rfl⟩ := Prod.mk.inj h
    exact ⟨items, hwords, hitems, (command?_ofItems_eq_ok_iff hitems).1 hc, rfl⟩
  · rintro ⟨items, hwords, hitems, hc, rfl⟩
    rw [read, Level.read_eq_ok_iff_writtenAsPart.2 ⟨items, hwords, hitems, rfl⟩, Except.bind,
      (command?_ofItems_eq_ok_iff hitems).2 hc]
    rfl

end CommandName

namespace Invocation

/-- The options on the two sides of a command are put together. -/
theorem merge_ofItems (outer inner : List Item) (c : Command) :
    merge (.ofItems outer) c (.ofItems inner) = ⟨decide (.json ∈ outer ++ inner),
      (inner.findSome? Item.root?).or (outer.findSome? Item.root?), some c⟩ := by
  simp [merge, Given.ofItems]

/-- **A command line is read exactly when it is one**, and it is read as what it asks for. -/
theorem ofArguments_eq_ok_iff (words : List Bytes) (i : Invocation) :
    ofArguments words = .ok i ↔ Spelled words i := by
  rw [ofArguments, read_eq_ok_iff]
  constructor
  · rintro (⟨before, p, g, hend, hbefore, hp, rfl⟩ |
      ⟨before, name, after, p, outer, c, inner, rfl, hbefore, hp, hread, rfl⟩)
    · obtain ⟨items, hwords, hitems, rfl⟩ := Level.exists_accepts_iff.1 ⟨p, hbefore, hp⟩
      exact .alone ((Level.writtenAsPart_iff_of_admits hitems).2 ⟨before, hend, hwords⟩) hitems
    · obtain ⟨outer, houter, hadmits, rfl⟩ := Level.exists_accepts_iff.1 ⟨p, hbefore, hp⟩
      obtain ⟨inner, hinner, hinner_admits, hc, rfl⟩ := CommandName.read_eq_ok_iff.1 hread
      rw [merge_ofItems]
      exact .command houter hadmits hinner hinner_admits hc
  · intro h
    cases h with
    | alone hpart hitems =>
      obtain ⟨before, hend, hwords⟩ := (Level.writtenAsPart_iff_of_admits hitems).1 hpart
      obtain ⟨p, hbefore, hp⟩ := Level.exists_accepts_iff.2 ⟨_, hwords, hitems, rfl⟩
      exact .inl ⟨before, p, _, hend, hbefore, hp, rfl⟩
    | command houter hadmits hinner hinner_admits hc =>
      obtain ⟨p, hbefore, hp⟩ := Level.exists_accepts_iff.2 ⟨_, houter, hadmits, rfl⟩
      have hread := CommandName.read_eq_ok_iff.2 ⟨_, hinner, hinner_admits, hc, rfl⟩
      exact .inr ⟨_, _, _, p, _, _, _, rfl, hbefore, hp, hread, (merge_ofItems _ _ _).symm⟩

/-- The name of a command behind `--root` is a root. -/
example : ofArguments [OptionName.root.word, CommandName.scan.bytes] =
    .ok ⟨false, some ⟨CommandName.scan.bytes⟩, none⟩ := rfl

/-- Behind a separator an option is a path. -/
example : ofArguments [CommandName.directory.bytes, Word.separatorWord, OptionName.json.word] =
    .ok ⟨false, none, some (.directory ⟨OptionName.json.word⟩)⟩ := rfl

/-- The name of a directory may be empty. -/
example : ofArguments [CommandName.scan.bytes, OptionName.directory.word, []] =
    .ok ⟨false, none, some (.scan [""])⟩ := rfl

end Invocation

end SqlSanity
