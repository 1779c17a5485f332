import SqlSanity.Proofs.Arguments.Parsing

/-!
# Proofs/Arguments/GlobalOptions — on which side of a command its global options stand

A good value may be looked at before its turn, so behind good options a level reads on from what
they have given.  Arguments that name no global option are then read as they would be without any:
what they give is the same, what is refused is refused for the same reason, and the global options
given before them stay as they are.  A command is therefore left with the same options whether they
stand before its name or right behind it, and a wrong argument after them is found on either side.

* `Level.read_of_settle` — reading on behind good options;
* `Level.readWord_adopt`, `Level.read_adopt` — one argument that names no global option, and a run
  of them;
* `Invocation.ofArguments_globalOptions` — the two sides of the name of a command.
-/

namespace SqlSanity

namespace Word

variable {w : Bytes} {words : List Bytes}

/-- The word starts as one of the two global options does. -/
def StartsGlobal (w : Bytes) : Prop := OptionName.json.word <+: w ∨ OptionName.root.word <+: w

/-- **Good global options**: the flag once at most, and a root that is not empty once at most. -/
def AreGlobalOptions (words : List Bytes) : Prop :=
  ∃ items, Item.WrittenOut items words ∧ Level.program.Admits items

/-- **Arguments without global options**: up to the first separator, none starts as one of them. -/
def AreLocal (words : List Bytes) : Prop :=
  ∀ w ∈ words.takeWhile (· ≠ separatorWord), ¬StartsGlobal w

theorem areLocal_cons (h : w ≠ separatorWord) :
    AreLocal (w :: words) ↔ ¬StartsGlobal w ∧ AreLocal words := by
  have hopen : decide (w ≠ separatorWord) = true := decide_eq_true h
  rw [AreLocal, List.takeWhile_cons, if_pos hopen, List.forall_mem_cons]
  rfl

end Word

/-! ## Reading on behind good values -/

namespace Level

variable {l : Level} {p q : Progress} {g : Given}

/-- An option is read from what is given in the end. -/
theorem readOption_congr (h : p.settle = q.settle) (o : OptionName) (value : Option Bytes) :
    l.readOption p o value = l.readOption q o value := by
  cases o <;> cases value <;> simp only [readOption, h]

/-- A path is read from what has been given, when that is good. -/
theorem readPath_of_settle (h : p.settle = .ok g) (w : Bytes) :
    l.readPath p w = l.readPath { given := g } w := by
  have hpath : p.hasPath = ({ given := g } : Progress).hasPath := Progress.hasPath_of_settle h
  rw [readPath, readPath, hpath, h]
  rfl

/-- So is any argument. -/
theorem readWord_of_settle (h : p.settle = .ok g) (w : Bytes) :
    l.readWord p w = l.readWord { given := g } w := by
  have hsettle : p.settle = ({ given := g } : Progress).settle := h
  have hsupplied : p.supplied? w = none := Progress.supplied?_of_settle h w
  have hsupplied' : ({ given := g } : Progress).supplied? w = none := rfl
  simp only [readWord, readOption_congr hsettle, hsupplied, hsupplied', readPath_of_settle h]

/-- **Behind good values a level is read from what they have given.** -/
theorem read_of_settle (h : p.settle = .ok g) (b : Bool) (words : List Bytes) :
    l.read b p words = l.read b { given := g } words := by
  induction words generalizing b with
  | nil =>
    rw [read_nil, read_nil, h]
    rfl
  | cons w words ih =>
    cases b with
    | true => rw [read, read, readPath_of_settle h]
    | false => rw [read, read, readWord_of_settle h, ih]

end Level

/-! ## Other global options -/

namespace Given

variable {g outer : Given}

/-- What has been given, with the global options of another part. -/
def adopt (g outer : Given) : Given := { g with json := outer.json, root := outer.root }

theorem withDirectory_adopt (v : Bytes) :
    (g.adopt outer).withDirectory v = (g.withDirectory v).map (adopt · outer) := by
  rw [withDirectory, withDirectory]
  cases Utf8.decode? v <;> rfl

theorem withPath_adopt (v : Bytes) :
    (g.adopt outer).withPath v = (g.withPath v).map (adopt · outer) := by
  rw [withPath, withPath]
  split <;> rfl

/-- Good global options give nothing else. -/
theorem adopt_ofItems {items : List Item} (h : Level.program.Admits items) :
    adopt {} (ofItems items) = ofItems items := by
  have hdirectories : items.filterMap Item.directory? = [] := by
    rw [List.filterMap_eq_nil_iff]
    intro item hitem
    cases item with
    | directory name => exact nomatch h.directory_level name hitem
    | json | root | path => rfl
  have hpath : items.findSome? Item.path? = none := by
    rw [List.findSome?_eq_none_iff]
    intro item hitem
    cases item with
    | path v => exact nomatch h.path_level v hitem
    | json | root | directory => rfl
  simp only [adopt, ofItems, hdirectories, hpath]

end Given

namespace Progress

variable {p : Progress} {outer : Given}

/-- How far a level has been read, with the global options of another part. -/
def adopt (p : Progress) (outer : Given) : Progress := { p with given := p.given.adopt outer }

/-- No root is pending. -/
def HoldsNoRoot (p : Progress) : Prop := ∀ value, p.pending ≠ some (.root value)

theorem holdsNoRoot_empty : HoldsNoRoot {} := by
  intro value hvalue
  cases hvalue

theorem holdsNoRoot_path (g : Given) (v : Bytes) : HoldsNoRoot ⟨g, some (.path v)⟩ := by
  intro value hvalue
  cases hvalue

theorem supplied?_adopt (v : Bytes) : (p.adopt outer).supplied? v = p.supplied? v := rfl

theorem hasPath_adopt : (p.adopt outer).hasPath = p.hasPath := rfl

/-- Global options have no part in any other value. -/
theorem settle_adopt (hp : p.HoldsNoRoot) :
    (p.adopt outer).settle = p.settle.map (Given.adopt · outer) := by
  obtain ⟨g, pending⟩ := p
  match pending, hp with
  | none, _ => rfl
  | some (.directory none), _ => rfl
  | some (.directory (some v)), _ => exact Given.withDirectory_adopt v
  | some (.path v), _ => exact Given.withPath_adopt v
  | some (.root value), hp => exact absurd rfl (hp value)

end Progress

namespace Level

variable {l : Level} {p q : Progress} {outer : Given} {w : Bytes} {words : List Bytes}

/-- An option that is not global is read the same under other global options. -/
theorem readOption_adopt (hp : p.HoldsNoRoot) {o : OptionName} (hjson : o ≠ .json)
    (hroot : o ≠ .root) (value : Option Bytes) :
    l.readOption (p.adopt outer) o value = (l.readOption p o value).map (·.adopt outer) := by
  match o, value with
  | .json, _ => exact absurd rfl hjson
  | .root, _ => exact absurd rfl hroot
  | .help, some _ | .version, some _ => rfl
  | .help, none | .version, none | .directory, none =>
    simp only [readOption, Progress.settle_adopt hp]
    cases p.settle <;> rfl
  | .directory, some v =>
    simp only [readOption, Progress.settle_adopt hp]
    cases p.settle with
    | error r => rfl
    | ok g =>
      simp only [Except.map, Except.bind, Given.withDirectory_adopt]
      cases g.withDirectory v <;> rfl

/-- A path is read the same under other global options. -/
theorem readPath_adopt (hp : p.HoldsNoRoot) (w : Bytes) :
    l.readPath (p.adopt outer) w = (l.readPath p w).map (·.adopt outer) := by
  rw [readPath, readPath, Progress.hasPath_adopt, Progress.settle_adopt hp]
  split
  · cases p.settle <;> rfl
  · rfl

/-- **An argument that names no global option is read the same under other global options.** -/
theorem readWord_adopt (hp : p.HoldsNoRoot) (hw : ¬Word.StartsGlobal w) :
    l.readWord (p.adopt outer) w = (l.readWord p w).map (·.adopt outer) := by
  rw [readWord, readWord, Progress.supplied?_adopt]
  split
  · next name value hlong =>
    have hword := Word.eq_of_ofBytes_eq_long hlong
    split
    · rfl
    · next o ho =>
      obtain ⟨rfl, -⟩ := long?_eq_some_iff.1 ho
      have hstarts : o.word <+: w := ⟨_, hword.symm⟩
      refine readOption_adopt hp ?_ ?_ value
      · rintro rfl
        exact hw (.inl hstarts)
      · rintro rfl
        exact hw (.inr hstarts)
  · next flags hshort =>
    split
    · rfl
    · next o ho =>
      obtain ⟨flag, -, hflag⟩ := Option.bind_eq_some_iff.1 ho
      obtain rfl | rfl := eq_of_short?_eq_some hflag <;>
        exact readOption_adopt hp (by decide) (by decide) none
  all_goals
    split
    · rfl
    · exact readPath_adopt hp w

/-- A step of such an argument leaves no root behind. -/
theorem Step.holdsNoRoot (h : l.Step p w q) (hp : p.HoldsNoRoot) (hw : ¬Word.StartsGlobal w) :
    q.HoldsNoRoot := by
  intro value hvalue
  cases h with
  | json | rootWith | directory | directoryWith | path => cases hvalue
  | root => exact hw (.inr (List.prefix_refl _))
  | value _ hsupplied =>
    obtain ⟨g, pending⟩ := p
    obtain rfl := Option.some.inj hvalue
    match pending, hsupplied with
    | some (.root none), _ => exact hp none rfl

/-- Behind a separator every argument is read the same under other global options. -/
theorem read_separated_adopt (hp : p.HoldsNoRoot) :
    l.read true (p.adopt outer) words = (l.read true p words).map (Given.adopt · outer) := by
  induction words generalizing p with
  | nil =>
    rw [read_nil, read_nil]
    exact Progress.settle_adopt hp
  | cons w words ih =>
    rw [read, read, readPath_adopt hp]
    cases hq : l.readPath p w with
    | error r => rfl
    | ok q =>
      obtain ⟨g, -, -, -, rfl⟩ := readPath_eq_ok_iff.1 hq
      exact ih (Progress.holdsNoRoot_path g w)

/-- **Arguments that name no global option are read the same under other global options**, which
they leave as they are. -/
theorem read_adopt (hp : p.HoldsNoRoot)
    (hwords : Word.AreLocal words) :
    l.read false (p.adopt outer) words = (l.read false p words).map (Given.adopt · outer) := by
  induction words generalizing p with
  | nil =>
    rw [read_nil, read_nil]
    exact Progress.settle_adopt hp
  | cons w words ih =>
    rw [read, read]
    split
    · exact read_separated_adopt hp
    · next hopen =>
      have hsep := (not_congr Word.beq_separator_iff).1 hopen
      obtain ⟨hw, hrest⟩ := (Word.areLocal_cons hsep).1 hwords
      rw [readWord_adopt hp hw]
      cases hq : l.readWord p w with
      | error r => rfl
      | ok q => exact ih (((readWord_eq_ok_iff hsep).1 hq).holdsNoRoot hp hw) hrest

/-- What has a place before any command has one after it. -/
theorem Admits.of_program {items : List Item} (h : program.Admits items) (l : Level) :
    l.Admits items where
  json := h.json
  root := h.root
  path := h.path
  directory_level name hname := nomatch h.directory_level name hname
  path_level v hv := nomatch h.path_level v hv

/-- Behind good global options the other arguments give what they give without them, and the
options. -/
theorem read_append_of_writtenOut {items : List Item} {before : List Bytes}
    (hbefore : Item.WrittenOut items before) (hitems : program.Admits items)
    (hwords : Word.AreLocal words) :
    l.read false {} (before ++ words) =
      (l.read false {} words).map (Given.adopt · (.ofItems items)) := by
  obtain ⟨p, haccepts, hp⟩ :=
    (exists_accepts_iff (l := l)).2 ⟨items, hbefore, hitems.of_program l, rfl⟩
  rw [read_of_accepts _ haccepts, read_of_settle hp, ← Given.adopt_ofItems hitems]
  exact read_adopt Progress.holdsNoRoot_empty hwords

/-- Arguments that name no global option give none. -/
theorem adopt_empty_of_read {g : Given}
    (hwords : Word.AreLocal words)
    (h : l.read false {} words = .ok g) : g.adopt {} = g := by
  have hsame := read_append_of_writtenOut (l := l) .nil (admits_nil program) hwords
  rw [List.nil_append, h] at hsame
  exact (Except.ok.inj hsame).symm

end Level

/-! ## The two sides of the name of a command -/

namespace CommandName

/-- Global options have no part in the command that is described. -/
theorem command?_adopt (name : CommandName) (g outer : Given) :
    name.command? (g.adopt outer) = name.command? g := by
  cases name <;> rfl

end CommandName

namespace Invocation

/-- Options before a command count as much as those that it has adopted, where it has none of its
own. -/
theorem merge_adopt {g : Given} (outer : Given) (c : Command) (h : g.adopt {} = g) :
    merge {} c (g.adopt outer) = merge outer c g := by
  rw [← h]
  simp [merge, Given.adopt]

/-- **Global options may stand on either side of the name of a command.**  Whether good options
stand before the name or behind it, the arguments after them ask for the same, or they are refused
for the same reason, as long as none of them names a global option before the first separator. -/
theorem ofArguments_globalOptions {options tail : List Bytes} (name : CommandName)
    (hoptions : Word.AreGlobalOptions options)
    (htail : Word.AreLocal tail) :
    ofArguments (options ++ name.bytes :: tail) =
      ofArguments (name.bytes :: (options ++ tail)) := by
  obtain ⟨items, hwritten, hitems⟩ := hoptions
  obtain ⟨p, haccepts, hp⟩ := Level.exists_accepts_iff.2 ⟨items, hwritten, hitems, rfl⟩
  have hempty : Progress.settle {} = .ok {} := rfl
  rw [ofArguments, ofArguments, read_of_accepts _ haccepts, read_bytes hp, read_bytes hempty,
    CommandName.read, CommandName.read, Level.read_append_of_writtenOut hwritten hitems htail]
  cases hread : (Level.command name).read false {} tail with
  | error r => rfl
  | ok g =>
    have hown := Level.adopt_empty_of_read htail hread
    simp only [Except.bind, Except.map, CommandName.command?_adopt]
    cases name.command? g with
    | error r => rfl
    | ok c => exact congrArg Except.ok (merge_adopt _ c hown).symm

/-- A root named as a command, on either side of a command whose path is named as an option. -/
theorem ofArguments_globalOptions_lookalikes :
    let options := [OptionName.json.word, OptionName.root.word, CommandName.scan.bytes]
    let tail := [Word.separatorWord, OptionName.json.word]
    Word.AreGlobalOptions options ∧ Word.AreLocal tail ∧
      ofArguments (options ++ CommandName.directory.bytes :: tail) =
        ofArguments (CommandName.directory.bytes :: (options ++ tail)) ∧
      ofArguments (options ++ CommandName.directory.bytes :: tail) =
        .ok ⟨true, some ⟨CommandName.scan.bytes⟩, some (.directory ⟨OptionName.json.word⟩)⟩ := by
  intro options tail
  have halone : Word.StandsAlone CommandName.scan.bytes := fun h => nomatch h
  have hwritten : Item.WrittenOut [.json, .root CommandName.scan.bytes] options :=
    .cons .json (.cons (.rootApart (by decide) halone) .nil)
  have hadmits : Level.program.Admits [.json, .root CommandName.scan.bytes] :=
    ⟨by decide, by decide, by decide, by simp, by simp⟩
  have hoptions : Word.AreGlobalOptions options := ⟨_, hwritten, hadmits⟩
  have htail : Word.AreLocal tail := fun w hw => nomatch hw
  exact ⟨hoptions, htail, ofArguments_globalOptions .directory hoptions htail, rfl⟩

/-- One more `--json` behind the name is an option of the command, and so it makes a difference. -/
example : ofArguments [OptionName.json.word, CommandName.scan.bytes, OptionName.json.word] =
      .ok ⟨true, none, some (.scan [])⟩ ∧
    ofArguments [CommandName.scan.bytes, OptionName.json.word, OptionName.json.word] =
      .error .repeatedOption := ⟨rfl, rfl⟩

end Invocation

end SqlSanity
