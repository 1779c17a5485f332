import SqlSanity.Proofs.Sql.Block
import SqlSanity.Proofs.Validation

/-!
# Proofs/Sql/Program — what is counted in a well-nested program

The count of openings and closings knows nothing of nesting.  Here it is read on programs that are
well nested: pieces of text without BEGIN and END, blocks, and compound statements, each in its
place.  Every part of such a program counts for itself, because it is parted from what follows by a
word border and its endings are complete, so the counts add up over the tree.  A block with a name
is opened and not closed, and a compound statement is closed and not opened, and these are all the
ways in which the count of a well-nested program is off.

* `Text.Counts` — a text that counts for itself, whatever follows;
* `Program.Item.counts` — what an item of a program counts for;
* `Program.validate_wellNested` — the counts of a program, and when it is warned of an imbalance.
-/

namespace SqlSanity

namespace Text

variable {s t w g l : Text} {m : Char} {b b' e e' : Nat}

/-- A text has so many openings, and so many closings whatever is read on behind a word border at
its end. -/
structure Counts (s : Text) (opened closed : Nat) : Prop where
  openings : s.openings = opened
  closings : ∀ t : Text, endsWord s = false ∨ startsWord t = false →
    (s ++ t : Text).closings = closed + t.closings

/-- Texts that count for themselves count together. -/
theorem Counts.append (hs : Counts s b e) (ht : Counts t b' e')
    (hborder : endsWord s = false ∨ startsWord t = false) : Counts (s ++ t) (b + b') (e + e') where
  openings := by rw [Text.openings, Keyword.count_append hborder, ← hs.openings, ← ht.openings]; rfl
  closings u hu := by
    by_cases hnil : t = []
    · subst hnil
      have hempty := ht.closings [] (.inr rfl)
      rw [List.append_nil] at hempty hu ⊢
      rw [hs.closings u hu]
      omega
    · rw [endsWord_append hnil] at hu
      rw [List.append_assoc, hs.closings (t ++ u) (by rwa [startsWord_append hnil]),
        ht.closings u hu, Nat.add_assoc]

/-- A word other than END starts no ending. -/
theorem closings_append_of_word (hne : w ≠ []) (hw : ∀ c ∈ w, isWord c = true)
    (ht : startsWord t = false) (hend : ¬Keyword.blockEnd.IsSpelling w) :
    (w ++ t : Text).closings = t.closings := by
  have hnone : ending false (w ++ t) = none := ending_of_find (Keyword.find_eq_none hw ht hend)
  rw [closings, endings, startsWords_ending.occurrences_of_none hne hw ht hnone, closings, endings]

/-- Where no word is END there is nothing to close. -/
theorem closings_append_of_words (hs : ∀ w ∈ words s, ¬Keyword.blockEnd.IsSpelling w)
    (hborder : endsWord s = false ∨ startsWord t = false) :
    (s ++ t : Text).closings = t.closings := by
  induction s using induction_words with
  | nil => rfl
  | other c s hc ih =>
    rw [words_cons_of_not_isWord hc] at hs
    rw [List.cons_append, closings, endings, startsWords_ending.occurrences_cons hc]
    exact ih hs (hborder.imp_left endsWord_of_cons)
  | word w s hne hw hstart ih =>
    rw [words_append_of_isWord hne hw hstart] at hs
    have hend := hs w List.mem_cons_self
    by_cases hnil : s = []
    · subst hnil
      rw [List.append_nil, endsWord_of_isWord hne hw] at hborder
      rw [List.append_nil, closings_append_of_word hne hw
        (hborder.resolve_left Bool.noConfusion) hend]
    · rw [endsWord_append hnil] at hborder
      have hstart' : startsWord (s ++ t) = false := (startsWord_append hnil).trans hstart
      rw [List.append_assoc, closings_append_of_word hne hw hstart' hend]
      exact ih (fun v hv => hs v (List.mem_cons_of_mem w hv)) hborder

/-- A text without the words BEGIN and END counts for nothing. -/
theorem counts_of_words (hbegin : ∀ w ∈ words s, ¬Keyword.blockBegin.IsSpelling w)
    (hend : ∀ w ∈ words s, ¬Keyword.blockEnd.IsSpelling w) : Counts s 0 0 where
  openings := by
    rw [openings, Keyword.count_eq_countP_words, List.countP_eq_zero]
    simpa using hbegin
  closings t hborder := by rw [closings_append_of_words hend hborder, Nat.zero_add]

theorem counts_of_isGap (hg : IsGap g) : Counts g 0 0 := by
  have hwords : words g = [] := words_eq_nil fun c hc => isWord_of_isSpace (hg.2 c hc)
  exact counts_of_words (by simp [hwords]) (by simp [hwords])

/-- The word BEGIN opens a block. -/
theorem counts_of_blockBegin (hw : Keyword.blockBegin.IsSpelling w) : Counts w 1 0 where
  openings := by
    rw [openings, Keyword.count_eq_countP_words, words_of_isWord hw.ne_nil hw.isWord]
    simp [hw]
  closings t hborder := by
    have hend : ¬Keyword.blockEnd.IsSpelling w := fun hend =>
      absurd (hw.symm.trans hend) (by decide)
    rw [closings_append_of_words (by simpa [words_of_isWord hw.ne_nil hw.isWord] using hend)
      hborder, Nat.zero_add]

/-- The words of an ending are END and the label. -/
theorem words_of_isEnding (h : IsEnding w g l m []) :
    words (w ++ (g ++ (l ++ [m]))) = w :: words l := by
  have hborder : startsWord (g ++ (l ++ [m])) = false := by
    rw [← List.append_assoc]
    exact h.border
  have hmark : startsWord [m] = false := isWord_of_isClosingMark h.mark
  rw [words_append_of_isWord h.spelling.ne_nil h.spelling.isWord hborder,
    words_of_not_isWord fun c hc => isWord_of_isSpace (h.gap c hc), words_append (.inr hmark),
    words_cons_of_not_isWord hmark, words_nil, List.append_nil]

/-- An ending whose label is not BEGIN closes a block or nothing. -/
theorem counts_of_isEnding (h : IsEnding w g l m [])
    (hl : ∀ v ∈ words l, ¬Keyword.blockBegin.IsSpelling v) :
    Counts (w ++ (g ++ (l ++ [m]))) 0 (if (Ending.ofLabel l).isCounted then 1 else 0) where
  openings := by
    have hw : ¬Keyword.blockBegin.IsSpelling w := fun hw =>
      absurd (hw.symm.trans h.spelling) (by decide)
    rw [openings, Keyword.count_eq_countP_words, words_of_isEnding h, List.countP_eq_zero]
    simpa [hw] using hl
  closings t _ := by
    have htext : w ++ (g ++ (l ++ [m])) ++ t = w ++ g ++ l ++ m :: t := by
      simp only [List.append_assoc, List.singleton_append]
    rw [htext, closings, endings, occurrences_of_isEnding (h.of_rest t), List.countP_cons, closings,
      endings, Nat.add_comm]

end Text

namespace Program

/-! ## The tree of a program -/

/-- Letters, each in either case. -/
structure Spelling (letters : List Char) where
  text : Text
  toLower_eq : text.map Char.toLower = letters

/-- White space between two words. -/
structure Gap where
  text : Text
  isGap : Text.IsGap text

/-- A piece of a program without the words BEGIN and END. -/
structure Atom where
  text : Text
  noBegin : ∀ w ∈ text.words, w.map Char.toLower ≠ Keyword.blockBegin.letters
  noEnd : ∀ w ∈ text.words, w.map Char.toLower ≠ Keyword.blockEnd.letters

/-- The words that name no block, in capitals. -/
def reserved : List Text := ['B', 'E', 'G', 'I', 'N'] :: ['E', 'N', 'D'] :: Ending.compounds

/-- The name of a block: a word that has no other meaning behind END. -/
structure Name where
  text : Text
  ne_nil : text ≠ []
  isWord : ∀ c ∈ text, Text.isWord c = true
  notReserved : text.upper ∉ reserved

/-- The compound statements. -/
inductive Compound
  | conditional | loop | case
  deriving DecidableEq, Repr

/-- The word that opens a compound statement, small. -/
def Compound.letters : Compound → List Char
  | conditional => ['i', 'f']
  | loop => ['l', 'o', 'o', 'p']
  | case => ['c', 'a', 's', 'e']

/-- What stands around some items: the word before them, and behind END the label if there is
one. -/
inductive Frame
  | unnamed (opening : Spelling Keyword.blockBegin.letters)
  | named (opening : Spelling Keyword.blockBegin.letters) (gap : Gap) (name : Name)
  | compound (k : Compound) (opening : Spelling k.letters) (gap : Gap) (label : Spelling k.letters)

mutual

/-- An item of a program: a piece of text, a block or a compound statement. -/
inductive Item
  | atom (a : Atom)
  | nest (frame : Frame) (body : Items) (gap : Gap) (closing : Spelling Keyword.blockEnd.letters)

/-- Items with white space in front of each. -/
inductive Items
  | nil
  | cons (gap : Gap) (item : Item) (rest : Items)

end

namespace Frame

/-- The word before the items. -/
def opening : Frame → Text
  | unnamed w => w.text
  | named w _ _ => w.text
  | compound _ w _ _ => w.text

/-- The white space between END and the label. -/
def gap : Frame → Text
  | unnamed _ => []
  | named _ g _ => g.text
  | compound _ _ g _ => g.text

/-- The label behind END, empty if there is none. -/
def label : Frame → Text
  | unnamed _ => []
  | named _ _ n => n.text
  | compound _ _ _ w => w.text

/-- A block without a name. -/
def isUnnamed : Frame → Bool
  | unnamed _ => true
  | _ => false

/-- A block with a name. -/
def isNamed : Frame → Bool
  | named _ _ _ => true
  | _ => false

/-- A compound statement. -/
def isCompound : Frame → Bool
  | compound _ _ _ _ => true
  | _ => false

end Frame

mutual

/-- An item as text: what stands in a frame has its END in front of the label and a `;` behind. -/
def Item.text : Item → Text
  | .atom a => a.text
  | .nest f body gap closing =>
    f.opening ++ (body.text ++ (gap.text ++ (closing.text ++ (f.gap ++ (f.label ++ [';'])))))

/-- Items as text. -/
def Items.text : Items → Text
  | .nil => []
  | .cons gap item rest => gap.text ++ (item.text ++ rest.text)

end

mutual

/-- The frames of an item, the outer ones first. -/
def Item.frames : Item → List Frame
  | .atom _ => []
  | .nest f body _ _ => f :: body.frames

/-- The frames of some items. -/
def Items.frames : Items → List Frame
  | .nil => []
  | .cons _ item rest => item.frames ++ rest.frames

end

end Program

/-- A well-nested program: an item, and more of them with white space between any two. -/
structure Program where
  first : Program.Item
  rest : Program.Items

namespace Program

/-- The program as text. -/
def text (p : Program) : Text := p.first.text ++ p.rest.text

/-- The blocks and the compound statements of a program. -/
def frames (p : Program) : List Frame := p.first.frames ++ p.rest.frames

/-- The number of blocks of a program. -/
def blocks (p : Program) : Nat := p.frames.countP fun f => !f.isCompound

/-- The number of blocks without a name. -/
def unnamed (p : Program) : Nat := p.frames.countP Frame.isUnnamed

/-- The number of blocks with a name. -/
def named (p : Program) : Nat := p.frames.countP Frame.isNamed

/-- The number of compound statements of a program. -/
def compounds (p : Program) : Nat := p.frames.countP Frame.isCompound

/-! ## Its words -/

variable {letters : List Char} {t : Text} {opened closed : Nat}

theorem Spelling.isWord (w : Spelling letters) (hl : ∀ a ∈ letters, Text.isWord a = true) :
    ∀ c ∈ w.text, Text.isWord c = true := fun c hc => by
  have hsmall : c.toLower ∈ letters := w.toLower_eq ▸ List.mem_map_of_mem hc
  rw [← Text.apply_toLower Text.isWord (by decide)]
  exact hl _ hsmall

theorem Spelling.ne_nil (w : Spelling letters) (hl : letters ≠ []) : w.text ≠ [] := fun hnil =>
  hl (by rw [← w.toLower_eq, hnil, List.map_nil])

theorem Spelling.isSpelling_iff (w : Spelling letters) {k : Keyword} (hk : 'k' ∉ k.letters)
    (hs : 's' ∉ k.letters) : k.IsSpelling w.text ↔ letters = k.letters := by
  rw [Keyword.isSpelling_iff_toLower hk hs, w.toLower_eq]

theorem Spelling.isBegin (w : Spelling Keyword.blockBegin.letters) :
    Keyword.blockBegin.IsSpelling w.text :=
  (w.isSpelling_iff (by decide) (by decide)).2 rfl

theorem Spelling.isEnd (w : Spelling Keyword.blockEnd.letters) :
    Keyword.blockEnd.IsSpelling w.text :=
  (w.isSpelling_iff (by decide) (by decide)).2 rfl

/-- The capitals of letters are those of their small form. -/
theorem upper_eq (ht : t.map Char.toLower = letters) (hl : letters.map Char.toLower = letters) :
    t.upper = Text.upper letters :=
  Text.upper_of_toLower (ht.trans hl.symm)

theorem Gap.startsWord_append (g : Gap) : Text.startsWord (g.text ++ t) = false :=
  Text.startsWord_append_of_isGap g.isGap

/-- White space does not change the counts of what follows it. -/
theorem Gap.counts_append (g : Gap) (ht : Text.Counts t opened closed) :
    Text.Counts (g.text ++ t) opened closed := by
  have hends : Text.endsWord g.text = false := Text.endsWord_append_of_isGap (t := []) g.isGap
  simpa only [Nat.zero_add] using (Text.counts_of_isGap g.isGap).append ht (.inl hends)

theorem Atom.counts (a : Atom) : Text.Counts a.text 0 0 := by
  refine Text.counts_of_words (fun w hw h => a.noBegin w hw ?_) fun w hw h => a.noEnd w hw ?_
  · exact (Keyword.isSpelling_iff_toLower (by decide) (by decide)).1 h
  · exact Text.isSpelling_blockEnd_iff.1 h

theorem Name.not_isBegin (n : Name) : ¬Keyword.blockBegin.IsSpelling n.text := fun h => by
  have hlower := (Keyword.isSpelling_iff_toLower (by decide) (by decide)).1 h
  refine n.notReserved ?_
  rw [upper_eq hlower (by decide)]
  decide

namespace Compound

variable (k : Compound)

theorem isWord_of_mem_letters : ∀ a ∈ k.letters, Text.isWord a = true := by
  refine List.all_eq_true.1 ?_
  cases k <;> decide

theorem letters_ne_nil : k.letters ≠ [] := by cases k <;> decide

theorem isWord (w : Spelling k.letters) : ∀ c ∈ w.text, Text.isWord c = true :=
  w.isWord k.isWord_of_mem_letters

/-- The word that opens a compound statement opens no block. -/
theorem not_isBegin (w : Spelling k.letters) : ¬Keyword.blockBegin.IsSpelling w.text := by
  rw [w.isSpelling_iff (by decide) (by decide)]
  cases k <;> decide

theorem not_isEnd (w : Spelling k.letters) : ¬Keyword.blockEnd.IsSpelling w.text := by
  rw [w.isSpelling_iff (by decide) (by decide)]
  cases k <;> decide

theorem upper_mem_compounds (w : Spelling k.letters) : w.text.upper ∈ Ending.compounds := by
  rw [upper_eq w.toLower_eq (by cases k <;> decide)]
  cases k <;> decide

end Compound

/-! ## Its counts -/

namespace Frame

/-- An opening counts for a block, unless it is that of a compound statement. -/
theorem counts_opening (f : Frame) :
    Text.Counts f.opening (if !f.isCompound then 1 else 0) 0 := by
  cases f with
  | unnamed w => exact Text.counts_of_blockBegin w.isBegin
  | named w _ _ => exact Text.counts_of_blockBegin w.isBegin
  | compound k w _ _ =>
    have hwords : w.text.words = [w.text] :=
      Text.words_of_isWord (w.ne_nil k.letters_ne_nil) (k.isWord w)
    refine Text.counts_of_words ?_ ?_
    · simpa [opening, hwords] using k.not_isBegin w
    · simpa [opening, hwords] using k.not_isEnd w

/-- END, white space, a word and a `;` make an ending. -/
theorem isEnding_of_isWord (closing : Spelling Keyword.blockEnd.letters) (g : Gap) {l : Text}
    (hl : ∀ c ∈ l, Text.isWord c = true) : Text.IsEnding closing.text g.text l ';' [] where
  spelling := closing.isEnd
  border := by
    rw [List.append_assoc]
    exact g.startsWord_append
  gap := g.isGap.2
  label := hl
  mark := rfl

theorem isEnding (f : Frame) (closing : Spelling Keyword.blockEnd.letters) :
    Text.IsEnding closing.text f.gap f.label ';' [] := by
  cases f with
  | unnamed _ =>
    have hnone (q : Char → Bool) : ∀ c ∈ ([] : Text), q c = true := fun _ hc => nomatch hc
    exact ⟨closing.isEnd, Text.isWord_of_isClosingMark (m := ';') rfl, hnone _, hnone _, rfl⟩
  | named _ g n => exact isEnding_of_isWord closing g n.isWord
  | compound k _ g w => exact isEnding_of_isWord closing g (k.isWord w)

/-- The label of a frame is not BEGIN. -/
theorem not_isBegin_of_mem_words (f : Frame) :
    ∀ v ∈ f.label.words, ¬Keyword.blockBegin.IsSpelling v := by
  cases f with
  | unnamed _ => exact fun _ hv => nomatch hv
  | named _ _ n =>
    rw [label, Text.words_of_isWord n.ne_nil n.isWord]
    simpa using n.not_isBegin
  | compound k _ _ w =>
    rw [label, Text.words_of_isWord (w.ne_nil k.letters_ne_nil) (k.isWord w)]
    simpa using k.not_isBegin w

/-- Only the name of a block keeps an ending from being counted. -/
theorem isCounted_label (f : Frame) : (Ending.ofLabel f.label).isCounted = !f.isNamed := by
  cases f with
  | unnamed _ => rfl
  | named _ _ n =>
    refine Bool.eq_false_iff.2 fun h => ?_
    rcases Text.isCounted_ofLabel_iff.1 h with h | h
    · exact n.ne_nil h
    · exact n.notReserved (List.mem_cons_of_mem _ (List.mem_cons_of_mem _ h))
  | compound k _ _ w => exact Text.isCounted_ofLabel_iff.2 (.inr (k.upper_mem_compounds w))

/-- **An ending counts for a closing, unless it has the name of a block.** -/
theorem counts_ending (f : Frame) (closing : Spelling Keyword.blockEnd.letters) :
    Text.Counts (closing.text ++ (f.gap ++ (f.label ++ [';']))) 0
      (if !f.isNamed then 1 else 0) := by
  rw [← f.isCounted_label]
  exact Text.counts_of_isEnding (f.isEnding closing) f.not_isBegin_of_mem_words

end Frame

/-- Items start apart from the word before them, since white space does. -/
theorem Items.startsWord_append (items : Items) (ht : Text.startsWord t = false) :
    Text.startsWord (items.text ++ t) = false := by
  cases items with
  | nil => exact ht
  | cons gap item rest =>
    rw [Items.text, List.append_assoc]
    exact gap.startsWord_append

theorem Items.startsWord_text (items : Items) : Text.startsWord items.text = false := by
  have h := items.startsWord_append Text.startsWord_nil
  rwa [List.append_nil] at h

mutual

/-- **An item counts for the openings of its blocks, and for the closings of all its frames but the
blocks with a name**, whatever follows it. -/
theorem Item.counts : ∀ i : Item, Text.Counts i.text
    (i.frames.countP fun f => !f.isCompound) (i.frames.countP fun f => !f.isNamed)
  | .atom a => a.counts
  | .nest f body gap closing => by
    have hend := gap.counts_append (f.counts_ending closing)
    have hbody := body.counts.append hend (.inr gap.startsWord_append)
    have h := f.counts_opening.append hbody (.inr (body.startsWord_append gap.startsWord_append))
    rw [Item.text, Item.frames, List.countP_cons, List.countP_cons,
      Nat.add_comm (body.frames.countP _)]
    simpa only [Nat.add_zero, Nat.zero_add] using h

/-- Items count for what each of them does. -/
theorem Items.counts : ∀ items : Items, Text.Counts items.text
    (items.frames.countP fun f => !f.isCompound) (items.frames.countP fun f => !f.isNamed)
  | .nil => Text.counts_of_words (fun _ hw => nomatch hw) fun _ hw => nomatch hw
  | .cons gap item rest => by
    rw [Items.text, Items.frames, List.countP_append, List.countP_append]
    exact gap.counts_append (item.counts.append rest.counts (.inr rest.startsWord_text))

end

/-- A program counts for what its items do. -/
theorem counts (p : Program) : Text.Counts p.text (p.frames.countP fun f => !f.isCompound)
    (p.frames.countP fun f => !f.isNamed) := by
  rw [frames, List.countP_append, List.countP_append]
  exact p.first.counts.append p.rest.counts (.inr p.rest.startsWord_text)

/-- Each frame is of one kind: what opens is a block without a name or with one, and what closes is
a block without a name or a compound statement. -/
theorem countP_frames (fs : List Frame) :
    fs.countP (fun f => !f.isCompound) = fs.countP Frame.isUnnamed + fs.countP Frame.isNamed ∧
    fs.countP (fun f => !f.isNamed) = fs.countP Frame.isUnnamed + fs.countP Frame.isCompound := by
  induction fs with
  | nil => exact ⟨rfl, rfl⟩
  | cons f fs ih =>
    have hopens : (if !f.isCompound then 1 else 0) =
        (if f.isUnnamed then 1 else 0) + (if f.isNamed then 1 else 0) := by cases f <;> rfl
    have hcloses : (if !f.isNamed then 1 else 0) =
        (if f.isUnnamed then 1 else 0) + (if f.isCompound then 1 else 0) := by cases f <;> rfl
    simp only [List.countP_cons]
    omega

/-- Blocks without a name are neither of the others. -/
theorem Frame.of_isUnnamed {f : Frame} (h : f.isUnnamed = true) :
    f.isNamed = false ∧ f.isCompound = false := by
  cases f with
  | unnamed _ => exact ⟨rfl, rfl⟩
  | named _ _ _ => cases h
  | compound _ _ _ _ => cases h

theorem openings_text (p : Program) : p.text.openings = p.blocks := p.counts.openings

theorem closings_text (p : Program) : p.text.closings = p.unnamed + p.compounds := by
  have h := p.counts.closings [] (.inr rfl)
  rw [List.append_nil] at h
  exact h.trans (countP_frames p.frames).2

/-- **The counts of a well-nested program.**  Its openings are its blocks, and its closings are the
blocks without a name and the compound statements.  So it is warned of an imbalance exactly when its
blocks with a name and its compound statements are more than two apart in number, and never when
each of its frames is a block without a name. -/
theorem validate_wellNested (p : Program) (path : Path) :
    p.text.openings = p.blocks ∧
    p.text.closings = p.unnamed + p.compounds ∧
    ((∃ b e, (Doubt.imbalance b e).message ∈ (p.text.validate path).warnings) ↔
      2 < ((p.named : Int) - p.compounds).natAbs) ∧
    ((∀ f ∈ p.frames, f.isUnnamed = true) →
      ∀ b e, (Doubt.imbalance b e).message ∉ (p.text.validate path).warnings) := by
  have hblocks : p.blocks = p.unnamed + p.named := (countP_frames p.frames).1
  have hwarned : (∃ b e, (Doubt.imbalance b e).message ∈ (p.text.validate path).warnings) ↔
      2 < ((p.named : Int) - p.compounds).natAbs := by
    rw [Text.exists_imbalance_mem_warnings_iff, Text.IsImbalanced, p.openings_text,
      p.closings_text, hblocks]
    omega
  refine ⟨p.openings_text, p.closings_text, hwarned, fun hall b e hmem => ?_⟩
  have hnamed : p.named = 0 := List.countP_eq_zero.2 fun f hf =>
    Bool.eq_false_iff.1 (Frame.of_isUnnamed (hall f hf)).1
  have hcompounds : p.compounds = 0 := List.countP_eq_zero.2 fun f hf =>
    Bool.eq_false_iff.1 (Frame.of_isUnnamed (hall f hf)).2
  have hlt := hwarned.1 ⟨b, e, hmem⟩
  rw [hnamed, hcompounds] at hlt
  exact absurd hlt (by decide)

/-- Three blocks with a name, one inside the other, are well nested and warned of all the same. -/
theorem validate_wellNested_threeNamed :
    let opening : Spelling Keyword.blockBegin.letters := ⟨['B', 'e', 'g', 'i', 'n'], by decide⟩
    let closing : Spelling Keyword.blockEnd.letters := ⟨['E', 'N', 'D'], by decide⟩
    let gap : Gap := ⟨['\r', '\n'], by decide⟩
    let name : Name := ⟨['p'], by decide, List.all_eq_true.1 (by decide), by decide⟩
    let inside (item : Item) : Item :=
      .nest (.named opening gap name) (.cons gap item .nil) gap closing
    let p : Program :=
      ⟨inside (inside (inside (.atom ⟨"ends := begin_;".toList, by decide, by decide⟩))), .nil⟩
    ∃ b e, (Doubt.imbalance b e).message ∈ (p.text.validate (.ofString "a.sql")).warnings := by
  intro opening closing gap name inside p
  exact (validate_wellNested p _).2.2.1.2 (by decide)

end Program

end SqlSanity
