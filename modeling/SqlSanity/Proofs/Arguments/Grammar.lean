import SqlSanity.Arguments.Help
import SqlSanity.Arguments.Parsing
import SqlSanity.Proofs.Text.Utf8
import Mathlib.Tactic.MkIffOfInductiveProp

/-!
# Proofs/Arguments/Grammar — what a command line may be, without a reader

A command line has a part before the name of a command and a part after it, or one part only.  A
part is a sequence of *items*, options and paths, each written in one word or in two.  Every level
admits its items a limited number of times, and after a separator nothing but one path may stand.

* `Item.Written` — the ways to write an item;
* `Level.Admits` — the items that may stand together on a level;
* `Invocation.Spelled` — a command line and what it asks for;
* `Level.admits_concat_iff` — one more item.
-/

namespace SqlSanity

/-! ## Words -/

namespace OptionName

/-- The name of an option, without its dashes. -/
def name : OptionName → Bytes
  | json => Utf8.encode ['j', 's', 'o', 'n']
  | root => Utf8.encode ['r', 'o', 'o', 't']
  | directory => Utf8.encode ['d', 'i', 'r']
  | help => Utf8.encode ['h', 'e', 'l', 'p']
  | version => Utf8.encode ['v', 'e', 'r', 's', 'i', 'o', 'n']

/-- An option as a word. -/
def word (o : OptionName) : Bytes := Word.dash :: Word.dash :: o.name

/-- An option as a word with a value attached to it. -/
def wordWith (o : OptionName) (value : Bytes) : Bytes := o.word ++ Word.equals :: value

end OptionName

/-- The name of a command in bytes. -/
def CommandName.bytes (name : CommandName) : Bytes := Utf8.encode name.word.toList

namespace Word

/-- The separator as a word. -/
def separatorWord : Bytes := [dash, dash]

/-- A word that can be a value or a path by itself: it does not start with a dash, unless a dash is
all there is. -/
def StandsAlone (w : Bytes) : Prop := w.head? = some dash → w = [dash]

end Word

/-! ## Items -/

/-- What one option gives, or one path. -/
inductive Item
  | json
  | root (value : Bytes)
  | directory (name : String)
  | path (value : Bytes)
  deriving DecidableEq, Repr

namespace Item

/-- The root that an item gives. -/
def root? : Item → Option Path
  | root value => some ⟨value⟩
  | _ => none

/-- The directory that an item gives. -/
def directory? : Item → Option String
  | directory name => some name
  | _ => none

/-- The path that an item gives. -/
def path? : Item → Option Path
  | path value => some ⟨value⟩
  | _ => none

/-- **How an item is written.**  A value is attached to its option, or it is the next word and must
stand alone.  Roots and paths are not empty, and the name of a directory is text. -/
inductive Written : Item → List Bytes → Prop
  | json : Written .json [OptionName.json.word]
  | rootAttached {v : Bytes} (hv : v ≠ []) : Written (.root v) [OptionName.root.wordWith v]
  | rootApart {v : Bytes} (hv : v ≠ []) (halone : Word.StandsAlone v) :
      Written (.root v) [OptionName.root.word, v]
  | directoryAttached {name : String} :
      Written (.directory name) [OptionName.directory.wordWith (Utf8.encode name.toList)]
  | directoryApart {name : String} (halone : Word.StandsAlone (Utf8.encode name.toList)) :
      Written (.directory name) [OptionName.directory.word, Utf8.encode name.toList]
  | path {v : Bytes} (hv : v ≠ []) (halone : Word.StandsAlone v) : Written (.path v) [v]

/-- Items written one after the other. -/
inductive WrittenOut : List Item → List Bytes → Prop
  | nil : WrittenOut [] []
  | cons {item : Item} {items : List Item} {ws words : List Bytes} (head : item.Written ws)
      (tail : WrittenOut items words) : WrittenOut (item :: items) (ws ++ words)

/-- **How the items of a part are written**: one after the other, with a separator after them or
not, and after a separator the last item may be a path as it is, dashes or no dashes. -/
inductive WrittenAsPart : List Item → List Bytes → Prop
  | bare {items : List Item} {words : List Bytes} (h : WrittenOut items words) :
      WrittenAsPart items words
  | separated {items : List Item} {words : List Bytes} (h : WrittenOut items words) :
      WrittenAsPart items (words ++ [Word.separatorWord])
  | verbatim {items : List Item} {words : List Bytes} {v : Bytes} (h : WrittenOut items words)
      (hv : v ≠ []) : WrittenAsPart (items ++ [.path v]) (words ++ [Word.separatorWord, v])

end Item

/-- What items give together. -/
def Given.ofItems (items : List Item) : Given where
  json := decide (Item.json ∈ items)
  root := items.findSome? Item.root?
  directories := items.filterMap Item.directory?
  path := items.findSome? Item.path?

/-- **The items that may stand together on a level**: the flag, a root and a path once at most, and
directories and paths where there is a use for them. -/
@[mk_iff]
structure Level.Admits (l : Level) (items : List Item) : Prop where
  json : items.count .json ≤ 1
  root : (items.filterMap Item.root?).length ≤ 1
  path : (items.filterMap Item.path?).length ≤ 1
  directory_level : ∀ name, .directory name ∈ items → l = .command .scan
  path_level : ∀ v, .path v ∈ items → l.takesPath = true

/-- **The command that the items after its name describe**: a scan with its directories in order, or
a check of the one path that is there. -/
inductive CommandName.Describes : CommandName → List Item → Command → Prop
  | scan {items : List Item} : Describes .scan items (.scan (items.filterMap Item.directory?))
  | directory {items : List Item} {v : Bytes} (h : .path v ∈ items) :
      Describes .directory items (.directory ⟨v⟩)
  | file {items : List Item} {v : Bytes} (h : .path v ∈ items) :
      Describes .file items (.file ⟨v⟩)

/-- **A command line, and what it asks for.**  The flag counts on either side of the name of the
command, and a root after it wins over one before it. -/
inductive Invocation.Spelled : List Bytes → Invocation → Prop
  | alone {items : List Item} {words : List Bytes} (h : Item.WrittenAsPart items words)
      (hadmits : Level.program.Admits items) :
      Spelled words ⟨decide (.json ∈ items), items.findSome? Item.root?, none⟩
  | command {outer inner : List Item} {before after : List Bytes} {name : CommandName} {c : Command}
      (houter : Item.WrittenOut outer before) (houter_admits : Level.program.Admits outer)
      (hinner : Item.WrittenAsPart inner after)
      (hinner_admits : (Level.command name).Admits inner) (hc : name.Describes inner c) :
      Spelled (before ++ name.bytes :: after)
        ⟨decide (.json ∈ outer ++ inner),
          (inner.findSome? Item.root?).or (outer.findSome? Item.root?), some c⟩

/-! ## One more item -/

/-- There is room on a level for one more item. -/
def Level.HasRoom (l : Level) (items : List Item) : Item → Prop
  | .json => .json ∉ items
  | .root _ => items.findSome? Item.root? = none
  | .directory _ => l = .command .scan
  | .path _ => l.takesPath = true ∧ items.findSome? Item.path? = none

namespace Item

variable {items : List Item} {item : Item}

/-- At most one more of a kind: the item is of another kind, or it is the first of its kind. -/
theorem length_filterMap_concat_le_one_iff {α : Type} (f : Item → Option α) :
    ((items ++ [item]).filterMap f).length ≤ 1 ↔
      (items.filterMap f).length ≤ 1 ∧ (f item = none ∨ items.findSome? f = none) := by
  have hnone : items.findSome? f = none ↔ (items.filterMap f).length = 0 := by
    rw [List.findSome?_eq_none_iff, List.length_eq_zero_iff, List.filterMap_eq_nil_iff]
  rw [hnone, List.filterMap_append, List.length_append]
  cases h : f item with
  | none => simp [h]
  | some a =>
    have hone : (List.filterMap f [item]).length = 1 := by simp [h]
    rw [hone]
    simp only [reduceCtorEq, false_or]
    omega

/-- The flag at most once more: the item is not the flag, or it is the first one. -/
theorem count_json_concat_le_one_iff : (items ++ [item]).count .json ≤ 1 ↔
    items.count .json ≤ 1 ∧ (item ≠ .json ∨ .json ∉ items) := by
  rw [List.count_append, List.count_singleton, ← List.count_eq_zero]
  by_cases h : item = .json <;> simp [h]
  omega

/-- What is asked of items of a form is asked of the last one too. -/
theorem forall_mem_concat_iff {α : Type} {f : α → Item} {P : Prop} :
    (∀ a, f a ∈ items ++ [item] → P) ↔ (∀ a, f a ∈ items → P) ∧ ((∀ a, f a ≠ item) ∨ P) := by
  by_cases hP : P <;> simp [hP, forall_and]

end Item

namespace Level

variable {l : Level} {items : List Item} {item : Item}

theorem admits_nil (l : Level) : l.Admits [] := by
  constructor <;> simp

/-- What comes first in admitted items is admitted. -/
theorem Admits.of_append {rest : List Item} (h : l.Admits (items ++ rest)) : l.Admits items where
  json := Nat.le_trans ((List.sublist_append_left _ _).count_le _) h.json
  root := Nat.le_trans ((List.sublist_append_left _ _).filterMap _).length_le h.root
  path := Nat.le_trans ((List.sublist_append_left _ _).filterMap _).length_le h.path
  directory_level name hname := h.directory_level name (List.mem_append_left _ hname)
  path_level v hv := h.path_level v (List.mem_append_left _ hv)

/-- **One more item is admitted exactly when there is room for it.** -/
theorem admits_concat_iff : l.Admits (items ++ [item]) ↔ l.Admits items ∧ l.HasRoom items item := by
  rw [admits_iff, admits_iff, Item.count_json_concat_le_one_iff,
    Item.length_filterMap_concat_le_one_iff, Item.length_filterMap_concat_le_one_iff,
    Item.forall_mem_concat_iff, Item.forall_mem_concat_iff]
  have hroom : l.HasRoom items item ↔ (item ≠ .json ∨ .json ∉ items) ∧
      (item.root? = none ∨ items.findSome? Item.root? = none) ∧
      (item.path? = none ∨ items.findSome? Item.path? = none) ∧
      ((∀ name, .directory name ≠ item) ∨ l = .command .scan) ∧
      ((∀ v, .path v ≠ item) ∨ l.takesPath = true) := by
    cases item <;> simp [HasRoom, Item.root?, Item.path?, and_comm]
  rw [hroom]
  constructor
  · rintro ⟨⟨hjson, hjson'⟩, ⟨hroot, hroot'⟩, ⟨hpath, hpath'⟩, ⟨hdir, hdir'⟩, hlevel, hlevel'⟩
    exact ⟨⟨hjson, hroot, hpath, hdir, hlevel⟩, hjson', hroot', hpath', hdir', hlevel'⟩
  · rintro ⟨⟨hjson, hroot, hpath, hdir, hlevel⟩, hjson', hroot', hpath', hdir', hlevel'⟩
    exact ⟨⟨hjson, hjson'⟩, ⟨hroot, hroot'⟩, ⟨hpath, hpath'⟩, ⟨hdir, hdir'⟩, hlevel, hlevel'⟩

theorem Admits.concat (h : l.Admits items) (hroom : l.HasRoom items item) :
    l.Admits (items ++ [item]) := admits_concat_iff.2 ⟨h, hroom⟩

end Level

/-! ## Taking items one by one -/

namespace Given

variable {items : List Item} {g : Given} {v : Bytes}

/-- **The flag is taken once.** -/
theorem withJson_ofItems_eq_ok_iff : (ofItems items).withJson = .ok g ↔
    .json ∉ items ∧ g = ofItems (items ++ [.json]) := by
  by_cases hmem : Item.json ∈ items <;>
    simp [withJson, ofItems, hmem, List.filterMap_cons, Item.root?, Item.directory?, Item.path?,
      eq_comm]

/-- **A root is taken once, and not an empty one.** -/
theorem withRoot_ofItems_eq_ok_iff : (ofItems items).withRoot v = .ok g ↔
    v ≠ [] ∧ items.findSome? Item.root? = none ∧ g = ofItems (items ++ [.root v]) := by
  cases hroot : items.findSome? Item.root? <;> cases v <;>
    simp [withRoot, ofItems, hroot, List.filterMap_cons, Item.root?, Item.directory?, Item.path?,
      eq_comm]

/-- **The name of a directory is taken when it is text.** -/
theorem withDirectory_ofItems_eq_ok_iff : (ofItems items).withDirectory v = .ok g ↔
    ∃ name : String, v = Utf8.encode name.toList ∧ g = ofItems (items ++ [.directory name]) := by
  have hgive : ∀ name : String, ofItems (items ++ [.directory name]) =
      { ofItems items with directories := (ofItems items).directories ++ [name] } := by
    intro name
    simp [ofItems, Item.root?, Item.directory?, Item.path?]
  rw [withDirectory]
  cases ht : Utf8.decode? v with
  | none =>
    have hno : ∀ name : String, v ≠ Utf8.encode name.toList := by
      intro name hname
      rw [Utf8.decode?_eq_some_iff.2 hname] at ht
      cases ht
    simp [hno]
  | some t =>
    rw [Utf8.decode?_eq_some_iff.1 ht, Except.ok.injEq, ← hgive]
    constructor
    · intro h
      exact ⟨String.ofList t, by rw [String.toList_ofList], h.symm⟩
    · rintro ⟨name, hname, rfl⟩
      rw [Utf8.encode_injective hname, String.ofList_toList]

/-- **A path is taken when it is not empty.** -/
theorem withPath_ofItems_eq_ok_iff (h : items.findSome? Item.path? = none) :
    (ofItems items).withPath v = .ok g ↔ v ≠ [] ∧ g = ofItems (items ++ [.path v]) := by
  cases v <;> simp [withPath, ofItems, h, List.filterMap_cons, Item.root?, Item.directory?,
    Item.path?, eq_comm]

end Given

end SqlSanity
