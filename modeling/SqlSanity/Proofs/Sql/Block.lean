import Mathlib.Data.Set.Card
import SqlSanity.Proofs.Sql.Keyword

/-!
# Proofs/Sql/Block — which words close a block

Endings are collected by a search from the left, where an ending may take in the word END that would
start the next one.  Whether a word END closes a block can still be told from the words beside it:
it does when a mark follows it, or the label of a compound statement and then a mark, unless it is
the label of the word END before it.  For an ending that takes in the start of another one has that
as its label, and the label has its mark right behind it, so it takes in no third.

* `Text.readsEnding_iff` — an ending can be read in one way only;
* `Text.overlapsInPairs_ending` — no three endings overlap;
* `WordIn.Closes` — a word END that closes a block, by the words beside it;
* `Text.closings_exact` — the endings that count are these words.
-/

namespace SqlSanity

/-- The ending with a label, or with none when that is empty. -/
def Ending.ofLabel (l : Text) : Ending := ⟨if l.isEmpty then none else some l⟩

namespace Text

variable {b : Bool} {t u w g l l' rest rest' pre mid : Text} {c m : Char} {e : Ending} {n : Nat}

/-! ## Words and what stands between them -/

theorem isWord_of_isClosingMark (h : isClosingMark m = true) : isWord m = false := by
  obtain rfl | rfl := isClosingMark_iff.1 h
  · decide
  · decide

theorem isSpace_of_isClosingMark (h : isClosingMark m = true) : isSpace m = false := by
  obtain rfl | rfl := isClosingMark_iff.1 h
  · decide
  · decide

/-! ## One ending -/

/-- The parts of an ending: a spelling of END that no word goes on from, white space, the characters
of a label, and a mark. -/
structure IsEnding (w g l : Text) (m : Char) (rest : Text) : Prop where
  spelling : Keyword.blockEnd.IsSpelling w
  border : startsWord (g ++ l ++ m :: rest) = false
  gap : ∀ c ∈ g, isSpace c = true
  label : ∀ c ∈ l, isWord c = true
  mark : isClosingMark m = true

/-- What stands behind its mark does not belong to an ending. -/
theorem IsEnding.of_rest (h : IsEnding w g l m rest) (rest' : Text) : IsEnding w g l m rest' where
  spelling := h.spelling
  border := by
    have hborder := h.border
    have hne : g ++ l ++ [m] ≠ [] := List.append_ne_nil_of_right_ne_nil _ (List.cons_ne_nil m [])
    rw [List.append_cons, startsWord_append hne] at hborder ⊢
    exact hborder
  gap := h.gap
  label := h.label
  mark := h.mark

/-- An ending read at a place where no word is open, in any way that the text can be cut up into its
parts: with as much of the white space and of the label as one likes. -/
inductive ReadsEnding : Bool → Text → Ending → Nat → Prop
  | parts {w g l : Text} {m : Char} {rest : Text} (h : IsEnding w g l m rest) :
      ReadsEnding false (w ++ g ++ l ++ m :: rest) (.ofLabel l)
        (w.length + g.length + l.length + 1)

/-- What follows END is cut up in one way only. -/
theorem afterEnd?_eq_some_iff : afterEnd? u = some (e, n) ↔ ∃ g l m rest,
    u = g ++ l ++ m :: rest ∧ (∀ c ∈ g, isSpace c = true) ∧ (∀ c ∈ l, isWord c = true) ∧
      isClosingMark m = true ∧ e = .ofLabel l ∧ n = g.length + l.length + 1 := by
  constructor
  · intro h
    rw [afterEnd?] at h
    split at h
    · cases h
    · next m rest hrest =>
      split at h
      · next hm =>
        cases h
        refine ⟨u.takeWhile isSpace, (dropSpace u).takeWhile isWord, m, rest, ?_,
          List.all_eq_true.1 List.all_takeWhile, List.all_eq_true.1 List.all_takeWhile, hm, rfl,
          rfl⟩
        rw [← hrest, List.append_assoc, List.takeWhile_append_dropWhile, dropSpace,
          List.takeWhile_append_dropWhile]
      · cases h
  · rintro ⟨g, l, m, rest, rfl, hg, hl, hm, rfl, rfl⟩
    -- The white space ends before the label or the mark, and the label before the mark.
    have hstop : ∀ c ∈ (l ++ m :: rest).head?, isSpace c = false := by
      cases l with
      | nil =>
        rintro c ⟨⟩
        exact isSpace_of_isClosingMark hm
      | cons d l =>
        rintro c ⟨⟩
        exact isSpace_of_isWord (hl d List.mem_cons_self)
    have htake : (g ++ l ++ m :: rest).takeWhile isSpace = g := by
      rw [List.append_assoc, List.takeWhile_append_of_pos hg]
      cases hlm : l ++ m :: rest with
      | nil => simp at hlm
      | cons c v =>
        rw [List.takeWhile_cons_of_neg, List.append_nil]
        rw [hstop c (by rw [hlm]; rfl)]
        exact Bool.false_ne_true
    have hdrop : dropSpace (g ++ l ++ m :: rest) = l ++ m :: rest := by
      have hwhole := List.takeWhile_append_dropWhile (p := isSpace) (l := g ++ l ++ m :: rest)
      rw [htake, List.append_assoc] at hwhole
      rw [dropSpace, List.append_assoc]
      exact List.append_cancel_left hwhole
    have hmark : isWord m = false := isWord_of_isClosingMark hm
    have hlabel : (l ++ m :: rest).takeWhile isWord = l := by
      rw [List.takeWhile_append_of_pos hl, List.takeWhile_cons_of_neg (by simp [hmark]),
        List.append_nil]
    have hrest : (l ++ m :: rest).dropWhile isWord = m :: rest := by
      rw [List.dropWhile_append_of_pos hl, List.dropWhile_cons_of_neg (by simp [hmark])]
    rw [afterEnd?, htake, hdrop, hlabel, hrest]
    simp only [hm, if_true]
    rfl

/-- **An ending can be read in one way only**, and that is how it is found. -/
theorem readsEnding_iff : ReadsEnding b t e n ↔ ending b t = some (e, n) := by
  constructor
  · rintro ⟨h⟩
    rename_i w g l m rest
    have hafter : afterEnd? (g ++ l ++ m :: rest) = some (.ofLabel l, g.length + l.length + 1) :=
      afterEnd?_eq_some_iff.2 ⟨g, l, m, rest, rfl, h.gap, h.label, h.mark, rfl, rfl⟩
    have htext : w ++ g ++ l ++ m :: rest = w ++ (g ++ l ++ m :: rest) := by
      simp only [List.append_assoc]
    rw [htext, ending, Keyword.find_append h.spelling h.border]
    simp only [List.drop_left, hafter, Option.map_some, ← Nat.add_assoc]
  · intro h
    have hfind := isSome_find_of_isSome_ending (Option.isSome_of_eq_some h)
    obtain ⟨rfl, w, u, rfl, hw, hborder⟩ := Keyword.exists_of_isSome_find hfind
    rw [ending, Keyword.find_append hw hborder] at h
    simp only [List.drop_left] at h
    obtain ⟨⟨e', n'⟩, hafter, heq⟩ := Option.map_eq_some_iff.1 h
    cases heq
    obtain ⟨g, l, m, rest, rfl, hg, hl, hm, rfl, rfl⟩ := afterEnd?_eq_some_iff.1 hafter
    have hreads := ReadsEnding.parts ⟨hw, hborder, hg, hl, hm⟩
    simpa only [List.append_assoc, Nat.add_assoc] using hreads

/-- Every ending takes up some of the text. -/
theorem progresses_ending : Progresses ending := by
  intro b t e n h
  obtain ⟨h⟩ := readsEnding_iff.2 h
  simp only [List.length_append, List.length_cons]
  omega

/-- Every ending starts a word. -/
theorem startsWords_ending : StartsWords ending where
  inside := ending_of_word
  outside ht := ending_of_find ((Keyword.startsWords_find .blockEnd).outside ht)

/-- The search takes an ending as a whole and goes on behind its mark. -/
theorem occurrences_of_isEnding (h : IsEnding w g l m rest) :
    occurrences ending (w ++ g ++ l ++ m :: rest) = .ofLabel l :: occurrences ending rest := by
  have hmatch := readsEnding_iff.1 (.parts h)
  have hmark : endsWord (w ++ g ++ l ++ [m]) = false :=
    (endsWord_concat _ _).trans (isWord_of_isClosingMark h.mark)
  rw [List.append_cons] at hmatch ⊢
  refine startsWords_ending.occurrences_of_some progresses_ending ?_ (.inl hmark)
  rw [hmatch]
  simp only [List.length_append, List.length_singleton]

/-! ## Endings that overlap -/

/-- **An ending that takes in the start of another one has that for its label**: what comes before
the other one is END and a gap. -/
theorem exists_label_of_covered (hmid : mid ≠ [])
    (h : ending (endsWord pre) (mid ++ t) = some (e, n)) (hlt : mid.length < n)
    (hfind : (Keyword.blockEnd.find (endsWord (pre ++ mid)) t).isSome = true) :
    endsWord pre = false ∧ ∃ w g l m rest, mid = w ++ g ∧ t = l ++ m :: rest ∧
      Keyword.blockEnd.IsSpelling w ∧ IsGap g ∧ Keyword.blockEnd.IsSpelling l ∧
        isClosingMark m = true := by
  obtain ⟨hopen, l, r, rfl, hl, hr⟩ := Keyword.exists_of_isSome_find hfind
  generalize htext : mid ++ (l ++ r) = text, hb : endsWord pre = b at h
  obtain ⟨hparts⟩ := readsEnding_iff.2 h
  rename_i w g l' m rest
  refine ⟨rfl, ?_⟩
  -- No word is open before the other one, so it starts behind a gap or the mark.
  have hnot {front back : Text} (hne : back ≠ []) (hback : ∀ c ∈ back, isWord c = true)
      (heq : mid = front ++ back) : False := by
    rw [heq, ← List.append_assoc, endsWord_append hne, endsWord_of_isWord hne hback] at hopen
    cases hopen
  have hw := hparts.spelling.isWord
  have htext : mid ++ (l ++ r) = w ++ (g ++ (l' ++ m :: rest)) := by
    rw [htext]
    simp only [List.append_assoc]
  rcases List.append_eq_append_iff.1 htext with ⟨w', rfl, -⟩ | ⟨back, rfl, hback⟩
  · have hword : ∀ c ∈ mid, isWord c = true := fun c hc => hw c (List.mem_append_left w' hc)
    exact (hnot hmid hword (List.nil_append mid).symm).elim
  have hcut : back = g ∧ l ++ r = l' ++ m :: rest := by
    rcases List.append_eq_append_iff.1 hback with ⟨label, rfl, hlabel⟩ | ⟨space, rfl, hspace⟩
    · have hlabel' : label = [] := Classical.byContradiction fun hne => by
        rcases List.append_eq_append_iff.1 hlabel with ⟨mark, rfl, hmark⟩ | ⟨more, rfl, -⟩
        · -- The label is passed, and the mark behind it is the end of the ending.
          cases mark with
          | nil =>
            rw [List.append_nil] at hne hnot
            exact hnot hne hparts.label (List.append_assoc w g l').symm
          | cons c mark =>
            simp only [List.length_append, List.length_cons] at hlt
            omega
        · exact hnot hne (fun c hc => hparts.label c (List.mem_append_left more hc))
            (List.append_assoc w g label).symm
      subst hlabel'
      exact ⟨List.append_nil g, hlabel.symm⟩
    · cases space with
      | nil => exact ⟨(List.append_nil back).symm, hspace⟩
      | cons c space =>
        -- The other one would start with white space.
        obtain ⟨d, l, rfl⟩ := List.exists_cons_of_ne_nil hl.ne_nil
        obtain ⟨rfl, -⟩ := List.cons.inj hspace
        have hd : isSpace d = true := hparts.gap d (by simp)
        rw [isSpace_of_letter (hl.isLetter_foldChar d List.mem_cons_self)] at hd
        cases hd
  obtain ⟨rfl, hrest⟩ := hcut
  have hmark : startsWord (m :: rest) = false := isWord_of_isClosingMark hparts.mark
  obtain ⟨rfl, rfl⟩ :=
    append_eq_append_of_isWord hl.isWord hparts.label hr hmark hrest
  refine ⟨w, back, l, m, rest, rfl, rfl, hparts.spelling, ⟨fun hnil => ?_, hparts.gap⟩, hl,
    hparts.mark⟩
  subst hnil
  exact @hnot [] w hparts.spelling.ne_nil hw (List.append_nil w)

/-- **No three endings overlap.** -/
theorem overlapsInPairs_ending : OverlapsInPairs ending := by
  intro before mid t e n hmid hmatch hlt hnext hcovered
  obtain ⟨before', mid', e', n', rfl, hmid', hmatch', hlt'⟩ := hcovered
  have hfind := isSome_find_of_isSome_ending (Option.isSome_of_eq_some hmatch)
  obtain ⟨-, w, g, l, m, rest, rfl, rfl, hw, hg, -⟩ :=
    exists_label_of_covered hmid hmatch hlt (isSome_find_of_isSome_ending hnext)
  obtain ⟨-, w', g', l', m', rest', rfl, htext, -, -, hl', hm'⟩ :=
    exists_label_of_covered hmid' hmatch' hlt' hfind
  -- The middle one is a label, so a mark follows it, and white space follows it too.
  obtain ⟨c, g, rfl⟩ := List.exists_cons_of_ne_nil hg.1
  have hc : isSpace c = true := hg.2 c List.mem_cons_self
  have hgap : startsWord (c :: g ++ (l ++ m :: rest)) = false := isWord_of_isSpace hc
  have hmark : startsWord (m' :: rest') = false := isWord_of_isClosingMark hm'
  rw [List.append_assoc] at htext
  obtain ⟨-, hrest⟩ := append_eq_append_of_isWord hw.isWord
    hl'.isWord hgap hmark htext
  obtain ⟨rfl, -⟩ := List.cons.inj hrest
  rw [isSpace_of_isClosingMark hm'] at hc
  cases hc

/-! ## Words END and the words beside them -/

/-- The spellings of END are those of its ASCII letters. -/
theorem isSpelling_blockEnd_iff :
    Keyword.blockEnd.IsSpelling w ↔ w.map Char.toLower = ['e', 'n', 'd'] :=
  Keyword.isSpelling_iff_toLower (by decide) (by decide)

end Text

/-- A word of a text at its place: word characters with a border on both sides. -/
structure WordIn (t : Text) where
  before : Text
  word : Text
  after : Text
  text_eq : before ++ word ++ after = t
  ne_nil : word ≠ []
  isWord : ∀ c ∈ word, Text.isWord c = true
  startsHere : Text.endsWord before = false
  endsHere : Text.startsWord after = false

namespace WordIn

variable {t before g v : Text} {d e : WordIn t} {n : Nat}

/-- The word END up to the case of its ASCII letters. -/
def IsEnd (e : WordIn t) : Prop := e.word.map Char.toLower = ['e', 'n', 'd']

/-- The word before is END, with white space only between the two. -/
def FollowsEnd (e : WordIn t) : Prop :=
  ∃ d : WordIn t, d.IsEnd ∧ ∃ g : Text, (∀ c ∈ g, Text.isSpace c = true) ∧
    e.before = d.before ++ d.word ++ g

/-- The capitals of the word are IF, LOOP or CASE. -/
def IsCompound (w : WordIn t) : Prop :=
  Text.upper w.word = ['I', 'F'] ∨ Text.upper w.word = ['L', 'O', 'O', 'P'] ∨
    Text.upper w.word = ['C', 'A', 'S', 'E']

/-- What makes a word END close a block: a `;` or a `/` that follows it, unless the word is the
label of the END before it, or a word IF, LOOP or CASE that follows it and has a `;` or a `/` right
behind. -/
inductive Closes (e : WordIn t) : Prop
  | mark (g : Text) (m : Char) (rest : Text) (after : e.after = g ++ m :: rest)
      (space : ∀ c ∈ g, Text.isSpace c = true) (mark : m = ';' ∨ m = '/')
      (noLabel : ¬(g = [] ∧ e.FollowsEnd))
  | compound (w : WordIn t) (g : Text) (m : Char) (rest : Text)
      (next : w.before = e.before ++ e.word ++ g) (gap : Text.IsGap g) (label : w.IsCompound)
      (after : w.after = m :: rest) (mark : m = ';' ∨ m = '/')

/-- A word is known by where it starts. -/
theorem eq_of_length_before (h : d.before.length = e.before.length) : d = e := by
  obtain ⟨before, word, after, htext, hne, hword, hstart, hend⟩ := d
  obtain ⟨before', word', after', rfl, hne', hword', hstart', hend'⟩ := e
  rw [List.append_assoc, List.append_assoc] at htext
  obtain ⟨rfl, hrest⟩ := List.append_inj htext h
  obtain ⟨rfl, rfl⟩ := Text.append_eq_append_of_isWord hword hword' hend hend' hrest
  rfl

/-- The text, parted where a word starts. -/
theorem before_append (e : WordIn t) : e.before ++ (e.word ++ e.after) = t :=
  (List.append_assoc _ _ _).symm.trans e.text_eq

/-- What follows a word, when the text is known from a place behind it. -/
theorem after_eq (htext : before ++ v = t) (h : before = e.before ++ e.word ++ g) :
    e.after = g ++ v := by
  have heq := e.text_eq.trans htext.symm
  rw [h, List.append_assoc _ g v] at heq
  exact List.append_cancel_left heq

end WordIn

namespace Text

theorem isCounted_ofLabel_iff :
    (Ending.ofLabel l).isCounted = true ↔ l = [] ∨ upper l ∈ Ending.compounds := by
  cases l with
  | nil => simp [Ending.ofLabel]
  | cons c l => simp [Ending.ofLabel, Ending.isCounted]

/-- A word END with a label or none and a mark behind it is an ending. -/
theorem ending_of_isEnd {e : WordIn t} (he : e.IsEnd) (hafter : e.after = g ++ l ++ m :: rest)
    (hg : ∀ c ∈ g, isSpace c = true) (hl : ∀ c ∈ l, isWord c = true)
    (hm : isClosingMark m = true) :
    ending (endsWord e.before) (e.word ++ e.after) =
      some (.ofLabel l, e.word.length + g.length + l.length + 1) := by
  have hborder := e.endsHere
  rw [hafter] at hborder
  have hreads := ReadsEnding.parts ⟨isSpelling_blockEnd_iff.2 he, hborder, hg, hl, hm⟩
  rw [e.startsHere, hafter, ← readsEnding_iff]
  simpa only [List.append_assoc] using hreads

/-- Every ending starts with a word END. -/
theorem exists_isEnd_of_ending (htext : pre ++ u = t)
    (h : ending (endsWord pre) u = some (e, n)) :
    ∃ d : WordIn t, d.before = pre ∧ u = d.word ++ d.after ∧ d.IsEnd ∧ ∃ g l m rest,
      d.after = g ++ l ++ m :: rest ∧ (∀ c ∈ g, isSpace c = true) ∧ (∀ c ∈ l, isWord c = true) ∧
        isClosingMark m = true ∧ e = .ofLabel l := by
  generalize hb : endsWord pre = b at h
  obtain ⟨hparts⟩ := readsEnding_iff.2 h
  rename_i w g l m rest
  let d : WordIn t :=
    { before := pre, word := w, after := g ++ l ++ m :: rest
      text_eq := by rw [← htext]; simp only [List.append_assoc]
      ne_nil := hparts.spelling.ne_nil
      isWord := hparts.spelling.isWord
      startsHere := hb
      endsHere := hparts.border }
  refine ⟨d, rfl, ?_, isSpelling_blockEnd_iff.1 hparts.spelling, g, l, m, rest, rfl, hparts.gap,
    hparts.label, hparts.mark, rfl⟩
  simp only [d, List.append_assoc]

/-- **A word END lies inside an ending exactly when it is the label of the END before it**, with the
mark right behind. -/
theorem covered_iff {e : WordIn t} (he : e.IsEnd) :
    Covered ending e.before (e.word ++ e.after) ↔
      e.FollowsEnd ∧ ∃ m rest, e.after = m :: rest ∧ isClosingMark m = true := by
  constructor
  · rintro ⟨before, mid, a, n, hbefore, hmid, hmatch, hlt⟩
    have hfind : (Keyword.blockEnd.find (endsWord (before ++ mid)) (e.word ++ e.after)).isSome := by
      rw [← hbefore, e.startsHere, Keyword.find_append (isSpelling_blockEnd_iff.2 he) e.endsHere]
      rfl
    obtain ⟨hstart, w, g, l, m, rest, rfl, hrest, hw, hg, hl, hm⟩ :=
      exists_label_of_covered hmid hmatch hlt hfind
    have hmark : startsWord (m :: rest) = false := isWord_of_isClosingMark hm
    obtain ⟨-, hafter⟩ := append_eq_append_of_isWord e.isWord hl.isWord e.endsHere
      hmark hrest
    let d : WordIn t :=
      { before := before, word := w, after := g ++ (e.word ++ e.after)
        text_eq := by
          refine Eq.trans ?_ e.before_append
          rw [hbefore]
          simp only [List.append_assoc]
        ne_nil := hw.ne_nil
        isWord := hw.isWord
        startsHere := hstart
        endsHere := startsWord_append_of_isGap hg }
    have hfollows : e.before = d.before ++ d.word ++ g := by rw [hbefore, List.append_assoc]
    exact ⟨⟨d, isSpelling_blockEnd_iff.1 hw, g, hg.2, hfollows⟩, m, rest, hafter, hm⟩
  · rintro ⟨⟨d, hd, g, hg, hbefore⟩, m, rest, hafter, hm⟩
    have hd' : d.after = g ++ (e.word ++ e.after) := WordIn.after_eq e.before_append hbefore
    have hlabel : d.after = g ++ e.word ++ m :: rest := by rw [hd', hafter, List.append_assoc]
    have hmatch := ending_of_isEnd hd hlabel hg e.isWord hm
    rw [hd', ← List.append_assoc] at hmatch
    refine ⟨d.before, d.word ++ g, _, _, by rw [hbefore, List.append_assoc], ?_, hmatch, ?_⟩
    · exact List.append_ne_nil_of_left_ne_nil d.ne_nil g
    · rw [List.length_append]
      omega

/-- White space is told from a mark. -/
theorem eq_nil_of_space_of_mark {m' : Char} (h : g ++ u = m' :: rest)
    (hg : ∀ c ∈ g, isSpace c = true) (hm : isClosingMark m' = true) : g = [] := by
  cases g with
  | nil => rfl
  | cons c g =>
    obtain ⟨rfl, -⟩ := List.cons.inj h
    exact nomatch (hg c List.mem_cons_self).symm.trans (isSpace_of_isClosingMark hm)

/-- A word END closes a block when it starts an ending that counts and is no label itself. -/
theorem closes_iff {e : WordIn t} : e.Closes ↔
    (∃ g l m rest, e.after = g ++ l ++ m :: rest ∧ (∀ c ∈ g, isSpace c = true) ∧
      (∀ c ∈ l, isWord c = true) ∧ isClosingMark m = true ∧
        (Ending.ofLabel l).isCounted = true) ∧
      ¬(e.FollowsEnd ∧ ∃ m rest, e.after = m :: rest ∧ isClosingMark m = true) := by
  constructor
  · rintro (⟨g, m, rest, hafter, hg, hm, hlabel⟩ | ⟨w, g, m, rest, hnext, hg, hl, hafter, hm⟩)
    · have hnone : ∀ c ∈ ([] : Text), isWord c = true := fun c hc => nomatch hc
      refine ⟨⟨g, [], m, rest, by rw [hafter, List.append_nil], hg, hnone,
        isClosingMark_iff.2 hm, rfl⟩, ?_⟩
      rintro ⟨hfollows, m', rest', hafter', hm'⟩
      exact hlabel ⟨eq_nil_of_space_of_mark (hafter.symm.trans hafter') hg hm', hfollows⟩
    · have he : e.after = g ++ (w.word ++ w.after) := WordIn.after_eq w.before_append hnext
      refine ⟨⟨g, w.word, m, rest, by rw [he, hafter, List.append_assoc], hg.2, w.isWord,
        isClosingMark_iff.2 hm,
        isCounted_ofLabel_iff.2 (.inr (Ending.mem_compounds_iff.2 hl))⟩, ?_⟩
      rintro ⟨-, m', rest', hafter', hm'⟩
      exact hg.1 (eq_nil_of_space_of_mark (he.symm.trans hafter') hg.2 hm')
  · rintro ⟨⟨g, l, m, rest, hafter, hg, hl, hm, hcounted⟩, hlabel⟩
    by_cases hnil : l = []
    · subst hnil
      rw [List.append_nil] at hafter
      refine .mark g m rest hafter hg (isClosingMark_iff.1 hm) ?_
      rintro ⟨rfl, hfollows⟩
      exact hlabel ⟨hfollows, m, rest, hafter, hm⟩
    · have hgap : IsGap g := by
        refine ⟨?_, hg⟩
        rintro rfl
        obtain ⟨c, l, rfl⟩ := List.exists_cons_of_ne_nil hnil
        have hend := e.endsHere
        rw [hafter] at hend
        exact nomatch hend.symm.trans (hl c List.mem_cons_self)
      let w : WordIn t :=
        { before := e.before ++ e.word ++ g, word := l, after := m :: rest
          text_eq := by
            refine Eq.trans ?_ e.text_eq
            rw [hafter]
            simp only [List.append_assoc]
          ne_nil := hnil
          isWord := hl
          startsHere := endsWord_append_of_isGap hgap
          endsHere := isWord_of_isClosingMark hm }
      have hcompound := (isCounted_ofLabel_iff.1 hcounted).resolve_left hnil
      exact .compound w g m rest rfl hgap (Ending.mem_compounds_iff.1 hcompound) rfl
        (isClosingMark_iff.1 hm)

/-- **The free endings that count start at the words END that close a block.** -/
theorem matchesFreely_iff_closes (htext : pre ++ u = t) :
    MatchesFreely ending Ending.isCounted pre u ↔
      ∃ e : WordIn t, e.before = pre ∧ e.IsEnd ∧ e.Closes := by
  constructor
  · rintro ⟨⟨a, n, hmatch, hcounted⟩, hfree⟩
    obtain ⟨e, rfl, rfl, he, g, l, m, rest, hafter, hg, hl, hm, rfl⟩ :=
      exists_isEnd_of_ending htext hmatch
    rw [covered_iff he] at hfree
    exact ⟨e, rfl, he, closes_iff.2 ⟨⟨g, l, m, rest, hafter, hg, hl, hm, hcounted⟩, hfree⟩⟩
  · rintro ⟨e, rfl, he, hcloses⟩
    obtain ⟨⟨g, l, m, rest, hafter, hg, hl, hm, hcounted⟩, hfree⟩ := closes_iff.1 hcloses
    obtain rfl : u = e.word ++ e.after :=
      List.append_cancel_left (htext.trans e.before_append.symm)
    rw [← covered_iff he] at hfree
    exact ⟨⟨_, _, ending_of_isEnd he hafter hg hl hm, hcounted⟩, hfree⟩

/-- Where the words END that close a block start. -/
theorem image_closes (t : Text) :
    (fun e : WordIn t => e.before.length) '' {e | e.IsEnd ∧ e.Closes} =
      {i | i < t.length ∧ MatchesFreely ending Ending.isCounted (t.take i) (t.drop i)} := by
  ext i
  constructor
  · rintro ⟨e, ⟨he, hcloses⟩, rfl⟩
    have hpos : 0 < e.word.length := List.length_pos_of_ne_nil e.ne_nil
    have hlength := congrArg List.length e.before_append
    have htake : e.before = t.take e.before.length :=
      List.take_left.symm.trans (congrArg (List.take _) e.before_append)
    simp only [List.length_append] at hlength
    exact ⟨by simp only; omega,
      (matchesFreely_iff_closes (List.take_append_drop _ t)).2 ⟨e, htake, he, hcloses⟩⟩
  · rintro ⟨hlt, hfree⟩
    obtain ⟨e, hbefore, he, hcloses⟩ :=
      (matchesFreely_iff_closes (List.take_append_drop i t)).1 hfree
    exact ⟨e, ⟨he, hcloses⟩, by simp only [hbefore, List.length_take]; omega⟩

/-- **The endings of a source that count are the words END that close a block, by the words beside
them.**  The search for endings does not depend on the choices it has: an ending can be read in one
way at most, takes up some of the text, and any search from the left finds the same ones. -/
theorem closings_exact (t : Text) :
    t.closings = {e : WordIn t | e.IsEnd ∧ e.Closes}.ncard ∧
      (∀ found, Scans ReadsEnding false t found ↔ found = t.endings) ∧
      ∀ b u e n, ReadsEnding b u e n → 0 < n ∧ n ≤ u.length ∧
        ∀ e' n', ReadsEnding b u e' n' → e' = e ∧ n' = n := by
  classical
  refine ⟨?_, fun found => ?_, fun b u e n h => ?_⟩
  · have hinj : Set.InjOn (fun e : WordIn t => e.before.length) {e | e.IsEnd ∧ e.Closes} :=
      fun d _ e _ h => WordIn.eq_of_length_before h
    have hcount := countP_occurrencesFrom overlapsInPairs_ending Ending.isCounted
      (Searched.start ending t)
    have hset : {i | i < t.length ∧ MatchesFreely ending Ending.isCounted (t.take i) (t.drop i)} =
        ↑{i ∈ Finset.range t.length |
          MatchesFreely ending Ending.isCounted (t.take i) (t.drop i)} := by
      ext i
      simp
    rw [← hinj.ncard_image, image_closes, hset, Set.ncard_coe_finset,
      ← Nat.count_eq_card_filter_range]
    exact hcount
  · exact scans_iff ReadsEnding readsEnding_iff progresses_ending
  · have hmatch := readsEnding_iff.1 h
    obtain ⟨hpos, hle⟩ := progresses_ending b u e n hmatch
    refine ⟨hpos, hle, fun e' n' h' => ?_⟩
    exact Prod.mk.inj (Option.some.inj ((readsEnding_iff.1 h').symm.trans hmatch))

/-- The second END is the label of the first when its mark touches it, and closes a block of its own
otherwise; a label counts in any case that has the capitals of IF, LOOP or CASE. -/
example : closings "END END;".toList = 0 ∧ closings "END END ;".toList = 1 ∧
    closings "END/END;".toList = 2 ∧ closings "End ıf;".toList = 1 := by
  decide +kernel

end Text

end SqlSanity
