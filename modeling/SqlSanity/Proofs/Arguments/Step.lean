import Mathlib.Tactic.SplitIfs
import SqlSanity.Proofs.Arguments.Grammar
import SqlSanity.Proofs.Except

/-!
# Proofs/Arguments/Step — what one argument can do, and what a run of them can do

The reading of an argument has seven ways to go on, and in every other case the command line is
refused.  A level that is read to its end has taken such steps, up to a separator if there is one;
a command line has taken them up to the name of a command.

* `Level.Step` — one argument that is taken;
* `Level.readWord_eq_ok_iff` — there are no other ways;
* `Level.read_eq_ok_iff` — a level that is read to its end;
* `Invocation.read_eq_ok_iff` — a command line that is read to its end.
-/

namespace SqlSanity

/-! ## The form of a word -/

namespace Word

variable {w v : Bytes}

theorem ofBytes_cons_cons {a b : UInt8} {bs : Bytes} : ofBytes (a :: b :: bs) =
    if a = dash then
      if b = dash then if bs = [] then .separator else ofLong bs else .short (b :: bs)
    else .plain := by
  simp [ofBytes]

theorem ofBytes_eq_plain_iff : ∀ {w : Bytes}, ofBytes w = .plain ↔ StandsAlone w
  | [] => by simp [ofBytes, StandsAlone]
  | [a] => by simp [ofBytes, StandsAlone]
  | a :: b :: bs => by
    rw [ofBytes_cons_cons]
    split
    · next ha =>
      have hdash : ¬StandsAlone (a :: b :: bs) := by simp [StandsAlone, ha]
      split
      · split <;> simp [hdash, ofLong]
      · simp [hdash]
    · next ha => simp [StandsAlone, ha]

theorem ofBytes_eq_separator_iff : ∀ {w : Bytes}, ofBytes w = .separator ↔ w = separatorWord
  | [] => by simp [ofBytes, separatorWord]
  | [a] => by simp [ofBytes, separatorWord]
  | a :: b :: bs => by
    rw [ofBytes_cons_cons, separatorWord]
    split
    · next ha =>
      split
      · next hb => split <;> simp_all [ofLong]
      · next hb => simp [hb]
    · next ha => simp [ha]

theorem beq_separator_iff {w : Bytes} : (ofBytes w == .separator) = true ↔ w = separatorWord := by
  rw [beq_iff_eq, ofBytes_eq_separator_iff]

/-- A long option is its name and its value. -/
theorem eq_of_ofBytes_eq_long {name : Bytes} {value : Option Bytes} :
    ∀ {w : Bytes}, ofBytes w = .long name value →
      w = dash :: dash :: (name ++ value.elim [] (equals :: ·))
  | [], h => nomatch h
  | [_], h => nomatch h
  | a :: b :: bs, h => by
    rw [ofBytes_cons_cons] at h
    split at h
    · next ha =>
      split at h
      · next hb =>
        split at h
        · cases h
        · obtain ⟨rfl, rfl⟩ := Word.long.inj h
          rw [ha, hb, List.cons.injEq, List.cons.injEq]
          refine ⟨rfl, rfl, ?_⟩
          have hsplit := List.takeWhile_append_dropWhile (p := (· != equals)) (l := bs)
          cases hrest : bs.dropWhile (· != equals) with
          | nil =>
            rw [hrest] at hsplit
            exact hsplit.symm
          | cons c value =>
            have hc : c = equals := by
              simpa [hrest] using List.head?_dropWhile_not (· != equals) bs
            rw [hrest, hc] at hsplit
            exact hsplit.symm
      · cases h
    · cases h

/-- An option as a word is a long option. -/
theorem ofBytes_word (o : OptionName) : ofBytes o.word = .long o.name none := by
  cases o <;> rfl

/-- An option as a word with a value is a long option with that value. -/
theorem ofBytes_wordWith (o : OptionName) (v : Bytes) :
    ofBytes (o.wordWith v) = .long o.name (some v) := by
  cases o <;> rfl

end Word

/-- The option belongs to the level. -/
def Level.Knows (l : Level) : OptionName → Prop
  | .version => l = .program
  | .directory => l = .command .scan
  | .json | .root | .help => True

/-- A level finds the options it knows, by their names. -/
theorem Level.long?_eq_some_iff {l : Level} {name : Bytes} {o : OptionName} :
    l.long? name = some o ↔ name = o.name ∧ l.Knows o := by
  constructor
  · intro h
    rw [long?] at h
    split_ifs at h with hjson hroot hhelp hversion hdirectory <;> obtain rfl := Option.some.inj h
    · exact ⟨eq_of_beq hjson, trivial⟩
    · exact ⟨eq_of_beq hroot, trivial⟩
    · exact ⟨eq_of_beq hhelp, trivial⟩
    · obtain ⟨hname, hlevel⟩ := Bool.and_eq_true_iff.1 hversion
      exact ⟨eq_of_beq hname, eq_of_beq hlevel⟩
    · obtain ⟨hname, hlevel⟩ := Bool.and_eq_true_iff.1 hdirectory
      exact ⟨eq_of_beq hname, eq_of_beq hlevel⟩
  · rintro ⟨rfl, h⟩
    cases o with
    | json | root | help => rfl
    | version => rw [show l = .program from h]; rfl
    | directory => rw [show l = .command .scan from h]; rfl

/-! ## Progress -/

namespace Progress

variable {p : Progress} {g : Given}

/-- Where all values so far are good, no option waits for one. -/
theorem supplied?_of_settle (h : p.settle = .ok g) (v : Bytes) : p.supplied? v = none := by
  obtain ⟨given, pending⟩ := p
  match pending with
  | none => rfl
  | some (.root (some _)) => rfl
  | some (.directory (some _)) => rfl
  | some (.path _) => rfl
  | some (.root none) | some (.directory none) => cases h

/-- Whether an option waits does not depend on what it is given. -/
theorem isSome_supplied? (p : Progress) (v : Bytes) : (p.supplied? v).isSome = p.isWaiting := by
  obtain ⟨given, pending⟩ := p
  match pending with
  | none => rfl
  | some (.root none) => rfl
  | some (.root (some _)) => rfl
  | some (.directory none) => rfl
  | some (.directory (some _)) => rfl
  | some (.path _) => rfl

theorem isWaiting_of_settle (h : p.settle = .ok g) : p.isWaiting = false := by
  rw [isWaiting, supplied?_of_settle h]
  rfl

/-- A path has been given exactly when there is one in the end. -/
theorem hasPath_of_settle (h : p.settle = .ok g) : p.hasPath = g.path.isSome := by
  obtain ⟨given, pending⟩ := p
  match pending with
  | none => cases h; rfl
  | some (.root none) | some (.directory none) => cases h
  | some (.root (some v)) =>
    simp only [settle, Given.withRoot] at h
    split_ifs at h
    cases h
    rfl
  | some (.directory (some v)) =>
    simp only [settle, Given.withDirectory] at h
    split at h
    · cases h
    · cases h
      rfl
  | some (.path v) =>
    simp only [settle, Given.withPath] at h
    split_ifs at h
    cases h
    rfl

end Progress

/-! ## Steps -/

/-- **What one argument can do**: it is an option by itself, an option that waits for a value, an
option with its value, the value that an option waits for, or a path.  Every value before it must be
good, unless the argument is the value itself. -/
inductive Level.Step (l : Level) (p : Progress) : Bytes → Progress → Prop
  | json {g g' : Given} (hp : p.settle = .ok g) (h : g.withJson = .ok g') :
      Step l p OptionName.json.word { given := g' }
  | root {g : Given} (hp : p.settle = .ok g) : Step l p OptionName.root.word ⟨g, some (.root none)⟩
  | rootWith {g g' : Given} {v : Bytes} (hp : p.settle = .ok g) (h : g.withRoot v = .ok g') :
      Step l p (OptionName.root.wordWith v) { given := g' }
  | directory {g : Given} (hl : l = .command .scan) (hp : p.settle = .ok g) :
      Step l p OptionName.directory.word ⟨g, some (.directory none)⟩
  | directoryWith {g g' : Given} {v : Bytes} (hl : l = .command .scan) (hp : p.settle = .ok g)
      (h : g.withDirectory v = .ok g') : Step l p (OptionName.directory.wordWith v) { given := g' }
  | value {w : Bytes} {pending : Pending} (halone : Word.StandsAlone w)
      (h : p.supplied? w = some pending) : Step l p w { p with pending := some pending }
  | path {g : Given} {w : Bytes} (halone : Word.StandsAlone w) (hl : l.takesPath = true)
      (hp : p.settle = .ok g) (hpath : g.path = none) : Step l p w ⟨g, some (.path w)⟩

namespace Level

variable {l : Level} {p p' : Progress} {g : Given} {w : Bytes} {words : List Bytes}

/-- A path is read where one is taken and none has been given. -/
theorem readPath_eq_ok_iff : l.readPath p w = .ok p' ↔
    ∃ g, p.settle = .ok g ∧ l.takesPath = true ∧ g.path = none ∧ p' = ⟨g, some (.path w)⟩ := by
  rw [readPath]
  constructor
  · intro h
    split at h
    · next hopen =>
      obtain ⟨g, hp, rfl⟩ := Except.map_eq_ok_iff.1 h
      rw [Progress.hasPath_of_settle hp] at hopen
      obtain ⟨hl, hpath⟩ := Bool.and_eq_true_iff.1 hopen
      exact ⟨g, hp, hl, by simpa using hpath, rfl⟩
    · cases h
  · rintro ⟨g, hp, hl, hpath, rfl⟩
    rw [hl, Progress.hasPath_of_settle hp, hpath, hp]
    rfl

/-- An option that is read is a step. -/
theorem step_of_readOption {o : OptionName} {value : Option Bytes} (hknows : l.Knows o)
    (h : l.readOption p o value = .ok p') :
    l.Step p (Word.dash :: Word.dash :: (o.name ++ value.elim [] (Word.equals :: ·))) p' := by
  match o, value, h with
  | .json, none, h =>
    obtain ⟨g', hg', rfl⟩ := Except.map_eq_ok_iff.1 h
    obtain ⟨g, hp, hjson⟩ := Except.bind_eq_ok_iff.1 hg'
    exact .json hp hjson
  | .root, none, h =>
    obtain ⟨g, hp, rfl⟩ := Except.map_eq_ok_iff.1 h
    exact .root hp
  | .directory, none, h =>
    obtain ⟨g, hp, rfl⟩ := Except.map_eq_ok_iff.1 h
    exact .directory hknows hp
  | .root, some v, h =>
    obtain ⟨g', hg', rfl⟩ := Except.map_eq_ok_iff.1 h
    obtain ⟨g, hp, hroot⟩ := Except.bind_eq_ok_iff.1 hg'
    exact .rootWith hp hroot
  | .directory, some v, h =>
    obtain ⟨g', hg', rfl⟩ := Except.map_eq_ok_iff.1 h
    obtain ⟨g, hp, hdirectory⟩ := Except.bind_eq_ok_iff.1 hg'
    exact .directoryWith hknows hp hdirectory
  | .help, none, h | .version, none, h =>
    obtain ⟨g, -, herror⟩ := Except.bind_eq_ok_iff.1 h
    cases herror

/-- A short flag calls for a text. -/
theorem eq_of_short?_eq_some {flag : UInt8} {o : OptionName} (h : l.short? flag = some o) :
    o = .help ∨ o = .version := by
  rw [short?] at h
  split_ifs at h <;> simp_all

/-- No short flag is read: each calls for a text, or is unknown. -/
theorem readOption_short_ne_ok {flag : UInt8} {o : OptionName} (ho : l.short? flag = some o) :
    l.readOption p o none ≠ .ok p' := by
  intro h
  obtain rfl | rfl := eq_of_short?_eq_some ho <;>
  · obtain ⟨g, -, herror⟩ := Except.bind_eq_ok_iff.1 h
    cases herror

/-- **An argument is read exactly when it is a step.** -/
theorem readWord_eq_ok_iff (hw : w ≠ Word.separatorWord) :
    l.readWord p w = .ok p' ↔ l.Step p w p' := by
  constructor
  · intro h
    rw [readWord] at h
    split at h
    · next name value hlong =>
      split at h
      · cases h
      · next o ho =>
        obtain ⟨rfl, hknows⟩ := long?_eq_some_iff.1 ho
        rw [Word.eq_of_ofBytes_eq_long hlong]
        exact step_of_readOption hknows h
    · next flags hshort =>
      split at h
      · cases h
      · next o ho =>
        obtain ⟨flag, -, hflag⟩ := Option.bind_eq_some_iff.1 ho
        exact absurd h (readOption_short_ne_ok hflag)
    · next hseparator => exact absurd (Word.ofBytes_eq_separator_iff.1 hseparator) hw
    · next hplain =>
      have halone := Word.ofBytes_eq_plain_iff.1 hplain
      split at h
      · next pending hpending =>
        obtain rfl := Except.ok.inj h
        exact .value halone hpending
      · next hnone =>
        obtain ⟨g, hp, hl, hpath, rfl⟩ := readPath_eq_ok_iff.1 h
        exact .path halone hl hp hpath
  · intro h
    have hlong : ∀ o, l.Knows o → l.long? o.name = some o := fun o ho =>
      long?_eq_some_iff.2 ⟨rfl, ho⟩
    cases h with
    | json hp h =>
      simp only [readWord, Word.ofBytes_word, hlong .json trivial, readOption, hp, Except.bind, h,
        Except.map]
    | root hp =>
      simp only [readWord, Word.ofBytes_word, hlong .root trivial, readOption, hp, Except.map]
    | rootWith hp h =>
      simp only [readWord, Word.ofBytes_wordWith, hlong .root trivial, readOption, hp, Except.bind,
        h, Except.map]
    | directory hl hp =>
      simp only [readWord, Word.ofBytes_word, hlong .directory hl, readOption, hp, Except.map]
    | directoryWith hl hp h =>
      simp only [readWord, Word.ofBytes_wordWith, hlong .directory hl, readOption, hp, Except.bind,
        h, Except.map]
    | value halone h =>
      simp only [readWord, Word.ofBytes_eq_plain_iff.2 halone, h]
    | path halone hl hp hpath =>
      simp only [readWord, Word.ofBytes_eq_plain_iff.2 halone, Progress.supplied?_of_settle hp]
      exact readPath_eq_ok_iff.2 ⟨_, hp, hl, hpath, rfl⟩

/-- No step reads a separator. -/
theorem Step.ne_separatorWord (h : l.Step p w p') : w ≠ Word.separatorWord := by
  rintro rfl
  have hlone : ¬Word.StandsAlone Word.separatorWord := by
    simp [Word.StandsAlone, Word.separatorWord]
  generalize hw : Word.separatorWord = w at h
  cases h with
  | value halone => exact hlone (hw ▸ halone)
  | path halone => exact hlone (hw ▸ halone)
  | json | root | rootWith | directory | directoryWith => cases hw

/-- **The steps that some arguments take**, one after the other. -/
inductive Accepts (l : Level) : Progress → List Bytes → Progress → Prop
  | nil {p : Progress} : Accepts l p [] p
  | cons {p p' q : Progress} {w : Bytes} {words : List Bytes} (h : l.Step p w p')
      (rest : Accepts l p' words q) : Accepts l p (w :: words) q

theorem Accepts.append {q : Progress} {rest : List Bytes} (h : l.Accepts p words p')
    (hrest : l.Accepts p' rest q) : l.Accepts p (words ++ rest) q := by
  induction h with
  | nil => exact hrest
  | cons h _ ih => exact .cons h (ih hrest)

/-! ## Reading a level -/

/-- Arguments that take their steps are read. -/
theorem read_of_accepts (rest : List Bytes) (h : l.Accepts p words p') :
    l.read false p (words ++ rest) = l.read false p' rest := by
  induction h with
  | nil => rfl
  | cons h _ ih =>
    have hword := (readWord_eq_ok_iff h.ne_separatorWord).2 h
    have hopen := (not_congr Word.beq_separator_iff).2 h.ne_separatorWord
    rw [List.cons_append, read, if_neg hopen, hword]
    exact ih

/-- After a separator there may be one path, if one is missing, and nothing else. -/
theorem read_separated_eq_ok_iff : l.read true p words = .ok g ↔
    words = [] ∧ p.settle = .ok g ∨
      ∃ v g', words = [v] ∧ p.settle = .ok g' ∧ l.takesPath = true ∧ g'.path = none ∧
        g'.withPath v = .ok g := by
  constructor
  · intro h
    match words with
    | [] =>
      rw [read_nil] at h
      exact .inl ⟨rfl, h⟩
    | [v] =>
      obtain ⟨q, hq, h⟩ := Except.bind_eq_ok_iff.1 h
      obtain ⟨g', hp, hl, hpath, rfl⟩ := readPath_eq_ok_iff.1 hq
      rw [read_nil] at h
      exact .inr ⟨v, g', rfl, hp, hl, hpath, h⟩
    | v :: v' :: words =>
      -- the path that has been given leaves no room for another one
      obtain ⟨q, hq, h⟩ := Except.bind_eq_ok_iff.1 h
      obtain ⟨g', hp, hl, hpath, rfl⟩ := readPath_eq_ok_iff.1 hq
      obtain ⟨q', hq', -⟩ := Except.bind_eq_ok_iff.1 h
      obtain ⟨g'', hsettle, -, hpath', -⟩ := readPath_eq_ok_iff.1 hq'
      have hgiven := Progress.hasPath_of_settle hsettle
      rw [hpath'] at hgiven
      cases hgiven
  · rintro (⟨rfl, h⟩ | ⟨v, g', rfl, hp, hl, hpath, h⟩)
    · rw [read_nil, h]
    · have hv := readPath_eq_ok_iff (w := v).2 ⟨g', hp, hl, hpath, rfl⟩
      rw [read, hv, Except.bind, read_nil]
      exact h

/-- **A level that is read to its end**: its arguments take their steps, up to a separator if there
is one, and the values are good in the end. -/
theorem read_eq_ok_iff : l.read false p words = .ok g ↔
    (∃ p', l.Accepts p words p' ∧ p'.settle = .ok g) ∨
      ∃ before after p', words = before ++ Word.separatorWord :: after ∧ l.Accepts p before p' ∧
        l.read true p' after = .ok g := by
  constructor
  · intro h
    induction words generalizing p with
    | nil => exact .inl ⟨p, .nil, by rwa [read_nil] at h⟩
    | cons w words ih =>
      rw [read] at h
      split at h
      · next hsep =>
        obtain rfl := Word.beq_separator_iff.1 hsep
        exact .inr ⟨[], words, p, rfl, .nil, h⟩
      · next hopen =>
        obtain ⟨q, hq, h⟩ := Except.bind_eq_ok_iff.1 h
        have hstep := (readWord_eq_ok_iff ((not_congr Word.beq_separator_iff).1 hopen)).1 hq
        obtain ⟨p', hrest, hp'⟩ | ⟨before, after, p', rfl, hrest, hafter⟩ := ih h
        · exact .inl ⟨p', .cons hstep hrest, hp'⟩
        · exact .inr ⟨w :: before, after, p', rfl, .cons hstep hrest, hafter⟩
  · rintro (⟨p', hwords, hp'⟩ | ⟨before, after, p', rfl, hbefore, hafter⟩)
    · have hread := read_of_accepts [] hwords
      rwa [List.append_nil, read_nil, hp'] at hread
    · rw [read_of_accepts _ hbefore]
      exact hafter

end Level

/-! ## Reading a command line -/

namespace CommandName

/-- The name of a command is found in its bytes. -/
theorem ofBytes?_eq_some_iff {b : Bytes} {name : CommandName} :
    ofBytes? b = some name ↔ b = name.bytes := by
  have hscan : scan.bytes = Utf8.encode ['s', 'c', 'a', 'n'] := rfl
  have hdirectory : directory.bytes = Utf8.encode ['d', 'i', 'r'] := rfl
  have hfile : file.bytes = Utf8.encode ['f', 'i', 'l', 'e'] := rfl
  rw [ofBytes?, ← hscan, ← hdirectory, ← hfile]
  constructor
  · intro h
    split_ifs at h with hb hb hb <;> rw [← Option.some.inj h, eq_of_beq hb]
  · rintro rfl
    cases name <;> rfl

end CommandName

namespace Invocation

variable {p p' : Progress} {w : Bytes} {words : List Bytes} {i : Invocation}

/-- Before any command a plain word is taken as a value only. -/
theorem ofBytes_ne_plain_of_step (h : Level.program.Step p w p') (hp : p.isWaiting = false) :
    Word.ofBytes w ≠ .plain := by
  intro hplain
  cases h with
  | json | root | directory =>
    rw [Word.ofBytes_word] at hplain
    cases hplain
  | rootWith | directoryWith =>
    rw [Word.ofBytes_wordWith] at hplain
    cases hplain
  | value halone h =>
    have hwaiting := Progress.isSome_supplied? p w
    rw [h, hp] at hwaiting
    cases hwaiting
  | path halone hl => cases hl

/-- Arguments that take their steps are read. -/
theorem read_of_accepts (rest : List Bytes) (h : Level.program.Accepts p words p') :
    read false p (words ++ rest) = read false p' rest := by
  induction h with
  | nil => rfl
  | @cons p p' q w words h _ ih =>
    have hword := (Level.readWord_eq_ok_iff h.ne_separatorWord).2 h
    have hopen := (not_congr Word.beq_separator_iff).2 h.ne_separatorWord
    -- a word that takes a step here is no call for help and no command, unless it is a value
    have hhelp : ¬(!p.isWaiting && w == helpWord) = true := by
      intro hhelp
      obtain ⟨hp, hw⟩ := Bool.and_eq_true_iff.1 hhelp
      exact ofBytes_ne_plain_of_step h (by simpa using hp) (eq_of_beq hw ▸ rfl)
    have hname : (if p.isWaiting then none else CommandName.ofBytes? w) = none := by
      split
      · rfl
      · next hp =>
        rw [Option.eq_none_iff_forall_ne_some]
        intro name hw
        rw [CommandName.ofBytes?_eq_some_iff] at hw
        refine ofBytes_ne_plain_of_step h (by simpa using hp) ?_
        rw [hw]
        cases name <;> rfl
    rw [List.cons_append, read, if_neg hhelp, hname]
    simp only [if_neg hopen, hword]
    exact ih

/-- A separator before any command is dropped. -/
theorem read_separatorWord (p : Progress) (words : List Bytes) :
    read false p (Word.separatorWord :: words) = read true p words := by
  rw [read]
  cases p.isWaiting <;> rfl

/-- At the name of a command the arguments of the command are read. -/
theorem read_bytes {outer : Given} (hp : p.settle = .ok outer) (name : CommandName)
    (after : List Bytes) : read false p (name.bytes :: after) =
      (name.read after).map fun (c, inner) => merge outer c inner := by
  have hhelp : (name.bytes == helpWord) = false := by cases name <;> rfl
  rw [read, Progress.isWaiting_of_settle hp, hhelp, if_neg (by simp), if_neg (by simp),
    CommandName.ofBytes?_eq_some_iff.2 rfl]
  simp only [hp]
  rfl

/-- The first argument of a command line is the name of a command, or a separator at the end, or it
takes a step. -/
theorem read_cons_eq_ok (h : read false p (w :: words) = .ok i) :
    (∃ name outer c inner, w = CommandName.bytes name ∧ p.settle = .ok outer ∧
      name.read words = .ok (c, inner) ∧ i = merge outer c inner) ∨
    (∃ g, w = Word.separatorWord ∧ words = [] ∧ p.settle = .ok g ∧ i = ⟨g.json, g.root, none⟩) ∨
    ∃ q, Level.program.Step p w q ∧ read false q words = .ok i := by
  rw [read] at h
  split at h
  · cases h
  · split at h
    · next name hname =>
      split at hname
      · cases hname
      · obtain ⟨⟨c, inner⟩, hread, h⟩ := Except.bind_eq_ok_iff.1 h
        obtain ⟨outer, hp, rfl⟩ := Except.map_eq_ok_iff.1 h
        exact .inl ⟨name, outer, c, inner, CommandName.ofBytes?_eq_some_iff.1 hname, hp, hread, rfl⟩
    · split at h
      · next hsep =>
        match words, h with
        | [], h =>
          obtain ⟨g, hp, rfl⟩ := Except.map_eq_ok_iff.1 h
          exact .inr (.inl ⟨g, Word.beq_separator_iff.1 hsep, rfl, hp, rfl⟩)
      · next hopen =>
        obtain ⟨q, hq, h⟩ := Except.bind_eq_ok_iff.1 h
        have hw := (not_congr Word.beq_separator_iff).1 hopen
        exact .inr (.inr ⟨q, (Level.readWord_eq_ok_iff hw).1 hq, h⟩)

/-- **A command line that is read to its end**: its arguments take their steps, and then it ends,
with a separator or without, or there is the name of a command and what that command takes. -/
theorem read_eq_ok_iff : read false p words = .ok i ↔
    (∃ before p' g, (words = before ∨ words = before ++ [Word.separatorWord]) ∧
      Level.program.Accepts p before p' ∧ p'.settle = .ok g ∧ i = ⟨g.json, g.root, none⟩) ∨
    ∃ before name after p' outer c inner, words = before ++ CommandName.bytes name :: after ∧
      Level.program.Accepts p before p' ∧ p'.settle = .ok outer ∧
      name.read after = .ok (c, inner) ∧ i = merge outer c inner := by
  constructor
  · intro h
    induction words generalizing p with
    | nil =>
      obtain ⟨g, hp, rfl⟩ := Except.map_eq_ok_iff.1 h
      exact .inl ⟨[], p, g, .inl rfl, .nil, hp, rfl⟩
    | cons w words ih =>
      obtain ⟨name, outer, c, inner, rfl, hp, hread, rfl⟩ | ⟨g, rfl, rfl, hp, rfl⟩ |
        ⟨q, hstep, h⟩ := read_cons_eq_ok h
      · exact .inr ⟨[], name, words, p, outer, c, inner, rfl, .nil, hp, hread, rfl⟩
      · exact .inl ⟨[], p, g, .inr rfl, .nil, hp, rfl⟩
      · obtain ⟨before, p', g, hend, hrest, hp', rfl⟩ |
          ⟨before, name, after, p', outer, c, inner, rfl, hrest, hp', hread, rfl⟩ := ih h
        · refine .inl ⟨w :: before, p', g, ?_, .cons hstep hrest, hp', rfl⟩
          exact hend.imp (congrArg (w :: ·)) (congrArg (w :: ·))
        · exact .inr ⟨w :: before, name, after, p', outer, c, inner, rfl, .cons hstep hrest, hp',
            hread, rfl⟩
  · rintro (⟨before, p', g, hend, hbefore, hp', rfl⟩ |
      ⟨before, name, after, p', outer, c, inner, rfl, hbefore, hp', hread, rfl⟩)
    · obtain rfl | rfl := hend
      · have hwords := read_of_accepts [] hbefore
        rw [List.append_nil] at hwords
        rw [hwords, read, hp']
        rfl
      · rw [read_of_accepts _ hbefore, read_separatorWord, read, hp']
        rfl
    · rw [read_of_accepts _ hbefore, read_bytes hp', hread]
      rfl

end Invocation

end SqlSanity
