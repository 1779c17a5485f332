import Mathlib.Data.List.Sort
import SqlSanity.Proofs.Sql.Block
import SqlSanity.Proofs.Validation

/-!
# Proofs/Sql/Alike — texts that differ in letter case and white space only

Two texts are *alike* when they read the same, character by character up to the case of ASCII
letters, but for the gaps of white space, of which only the number of line feeds counts.  Whatever
is cut out of one of them at a place that is not inside a gap can be cut out of the other, and so
every rule on sources, which looks for words, marks and phrases with gaps between them, finds the
same in both.

* `Text.Alike.split` — what is cut off one of two texts that are alike can be cut off the other;
* `Text.Alike.count_eq`, `Text.Alike.closings_eq` — they have the same openings and closings;
* `Text.Alike.replacementLines_eq` — and the same lines that replace a table;
* `Text.Alike.validate_eq` — so they have the same report;
* `Text.validate_respaced`, `Text.validate_recased` — layout and letter case do not matter.
-/

namespace SqlSanity.Text

variable {s t u w x y g l r : Text} {c m : Char}

/-- Two texts read the same up to the case of ASCII letters and the white space of their gaps, with
as many line feeds in each gap. -/
inductive Alike : Text → Text → Prop
  | nil : Alike [] []
  | char {c d : Char} {s t : Text} (solid : isSpace c = false) (letter : c.toLower = d.toLower)
      (rest : Alike s t) : Alike (c :: s) (d :: t)
  | gap {g h s t : Text} (left : IsGap g) (right : IsGap h) (lines : g.count '\n' = h.count '\n')
      (rest : Alike s t) : Alike (g ++ s) (h ++ t)

/-- The text does not start with white space. -/
def StartsSolid (t : Text) : Prop := ∀ c ∈ t.head?, isSpace c = false

/-- The text does not end with white space. -/
def EndsSolid (t : Text) : Prop := ∀ c ∈ t.getLast?, isSpace c = false

theorem endsSolid_of_append (h : EndsSolid (s ++ t)) : EndsSolid t := fun c hc =>
  h c (by rw [List.getLast?_append, Option.mem_def.1 hc]; rfl)

theorem endsSolid_of_isWord (hw : ∀ c ∈ w, isWord c = true) : EndsSolid w := fun c hc =>
  isSpace_of_isWord (hw c (List.mem_of_getLast? hc))

theorem startsSolid_of_isWord (hw : ∀ c ∈ w, isWord c = true) : StartsSolid w := fun c hc =>
  isSpace_of_isWord (hw c (List.mem_of_head? hc))

theorem startsSolid_cons (hc : isSpace c = false) : StartsSolid (c :: t) := by
  rintro d ⟨⟩
  exact hc

theorem startsSolid_of_isPhrase {ks : List Keyword} (hu : IsPhrase ks u) : StartsSolid u := by
  obtain ⟨c, v, rfl, hc⟩ := hu.exists_cons
  exact startsSolid_cons (isSpace_of_letter hc)

theorem endsSolid_of_isPhrase {ks : List Keyword} (hu : IsPhrase ks u) (x : Text) :
    EndsSolid (x ++ u) := fun c hc => isSpace_of_letter (hu.isLetter_of_mem_getLast? x c hc)

namespace Alike

theorem symm (hst : Alike s t) : Alike t s := by
  induction hst with
  | nil => exact .nil
  | char solid letter _ ih => exact .char (isSpace_of_toLower letter ▸ solid) letter.symm ih
  | gap left right lines _ ih => exact .gap right left lines.symm ih

/-! ## Cutting -/

/-- **What is cut off one of two texts that are alike can be cut off the other**, at any place that
is not inside a gap. -/
theorem split (hst : Alike (x ++ y) t) (hcut : EndsSolid x ∨ StartsSolid y) :
    ∃ x' y', t = x' ++ y' ∧ Alike x x' ∧ Alike y y' := by
  generalize hs : x ++ y = s at hst
  induction hst generalizing x with
  | nil =>
    obtain ⟨rfl, rfl⟩ := List.append_eq_nil_iff.1 hs
    exact ⟨[], [], rfl, .nil, .nil⟩
  | @char c d s t solid letter rest ih =>
    cases x with
    | nil =>
      obtain rfl : y = c :: s := hs
      exact ⟨[], d :: t, rfl, .nil, .char solid letter rest⟩
    | cons e x =>
      obtain ⟨rfl, rfl⟩ := List.cons.inj hs
      obtain ⟨x', y', rfl, hx, hy⟩ := ih (hcut.imp_left (endsSolid_of_append (s := [e]))) rfl
      exact ⟨d :: x', y', rfl, .char solid letter hx, hy⟩
  | @gap g h s t left right lines rest ih =>
    rcases List.append_eq_append_iff.1 hs with ⟨g', rfl, rfl⟩ | ⟨x, rfl, rfl⟩
    · -- The cut is at an end of the gap.
      by_cases hx : x = []
      · subst hx
        exact ⟨[], h ++ t, rfl, .nil, .gap left right lines rest⟩
      · obtain rfl : g' = [] := Classical.byContradiction fun hg' => by
          obtain ⟨c, g'', rfl⟩ := List.exists_cons_of_ne_nil hg'
          rcases hcut with hcut | hcut
          · have hlast := hcut _ (List.getLast?_eq_some_getLast hx)
            rw [left.2 _ (List.mem_append_left _ (List.getLast_mem hx))] at hlast
            cases hlast
          · have hhead := hcut c rfl
            rw [left.2 c (by simp)] at hhead
            cases hhead
        rw [List.append_nil] at left lines
        have hgap := Alike.gap left right lines .nil
        rw [List.append_nil, List.append_nil] at hgap
        exact ⟨h, t, rfl, hgap, rest⟩
    · obtain ⟨x', y', rfl, hx, hy⟩ := ih (hcut.imp_left endsSolid_of_append) rfl
      exact ⟨h ++ x', y', (List.append_assoc _ _ _).symm, .gap left right lines hx, hy⟩

/-- Without white space only the case of letters is left to differ. -/
theorem toLower_eq (hst : Alike s t) (hs : ∀ c ∈ s, isSpace c = false) :
    s.map Char.toLower = t.map Char.toLower := by
  induction hst with
  | nil => rfl
  | char _ letter _ ih =>
    rw [List.map_cons, List.map_cons, letter, ih fun e he => hs e (List.mem_cons_of_mem _ he)]
  | gap left _ _ _ _ =>
    obtain ⟨e, g, rfl⟩ := List.exists_cons_of_ne_nil left.1
    have he := hs e (by simp)
    rw [left.2 e List.mem_cons_self] at he
    cases he

theorem forall_isSpace (hst : Alike s t) (hs : ∀ c ∈ s, isSpace c = true) :
    ∀ c ∈ t, isSpace c = true := by
  induction hst with
  | nil => exact hs
  | char solid _ _ _ =>
    rw [hs _ List.mem_cons_self] at solid
    cases solid
  | gap _ right _ _ ih =>
    intro c hc
    rcases List.mem_append.1 hc with hc | hc
    · exact right.2 c hc
    · exact ih (fun e he => hs e (List.mem_append_right _ he)) c hc

theorem eq_nil_iff (hst : Alike s t) : s = [] ↔ t = [] := by
  cases hst with
  | nil => exact Iff.rfl
  | char _ _ _ => exact iff_of_false (List.cons_ne_nil _ _) (List.cons_ne_nil _ _)
  | gap left right _ _ =>
    exact iff_of_false (List.append_ne_nil_of_left_ne_nil left.1 _)
      (List.append_ne_nil_of_left_ne_nil right.1 _)

/-- What is alike to a gap is a gap. -/
theorem isGap (hst : Alike s t) (hs : IsGap s) : IsGap t :=
  ⟨fun ht => hs.1 (hst.eq_nil_iff.2 ht), hst.forall_isSpace hs.2⟩

/-- What is alike to a word is a word. -/
theorem forall_isWord (hst : Alike s t) (hs : ∀ c ∈ s, isWord c = true) :
    ∀ c ∈ t, isWord c = true := by
  have hmap : s.map isWord = t.map isWord :=
    map_of_toLower isWord (by decide) (hst.toLower_eq fun c hc => isSpace_of_isWord (hs c hc))
  have hall : ∀ b ∈ s.map isWord, b = true := List.forall_mem_map.2 hs
  rw [hmap] at hall
  exact List.forall_mem_map.1 hall

/-- What is alike to a spelling of a keyword is one. -/
theorem isSpelling {k : Keyword} (hst : Alike s t) (hs : k.IsSpelling s) : k.IsSpelling t :=
  (Keyword.isSpelling_of_toLower
    (hst.toLower_eq fun c hc => isSpace_of_isWord (hs.isWord c hc))).1 hs

/-- Where a text starts with a character that is no white space, the other one starts with it up to
case. -/
theorem exists_cons (hst : Alike (c :: s) t) (hc : isSpace c = false) :
    ∃ d t', t = d :: t' ∧ c.toLower = d.toLower ∧ Alike s t' := by
  generalize hs : c :: s = u at hst
  cases hst with
  | nil => cases hs
  | @char _ d _ t' _ letter rest =>
    obtain ⟨rfl, rfl⟩ := List.cons.inj hs
    exact ⟨d, t', rfl, letter, rest⟩
  | gap left _ _ _ =>
    obtain ⟨e, g, rfl⟩ := List.exists_cons_of_ne_nil left.1
    obtain ⟨rfl, -⟩ := List.cons.inj hs
    rw [left.2 c List.mem_cons_self] at hc
    cases hc

/-! ## Characters -/

/-- Texts that are alike have as many line feeds. -/
theorem count_lf_eq (hst : Alike s t) : s.count '\n' = t.count '\n' := by
  induction hst with
  | nil => rfl
  | char solid letter _ ih =>
    have hlf {e : Char} (he : isSpace e = false) : e ≠ '\n' := by
      rintro rfl
      cases he
    rw [List.count_cons_of_ne (hlf solid), ih,
      List.count_cons_of_ne (hlf (isSpace_of_toLower letter ▸ solid))]
  | gap _ _ lines _ ih => rw [List.count_append, List.count_append, lines, ih]

/-- Texts that are alike are blank alike. -/
theorem isBlank_eq (hst : Alike s t) : s.isBlank = t.isBlank := by
  induction hst with
  | nil => rfl
  | char _ letter _ ih =>
    rw [isBlank, List.all_cons, isBlankChar_of_toLower letter, ← isBlank, ih]
    rfl
  | gap left right _ _ ih =>
    have hgap {g : Text} (hg : IsGap g) : g.all isBlankChar = true := isBlank_of_isSpace hg.2
    rw [isBlank, List.all_append, hgap left, Bool.true_and, ← isBlank, ih, isBlank, isBlank,
      List.all_append, hgap right, Bool.true_and]

/-! ## Words -/

theorem startsWord_eq (hst : Alike s t) : startsWord s = startsWord t := by
  cases hst with
  | nil => rfl
  | char _ letter _ => exact isWord_of_toLower letter
  | gap left right _ _ =>
    rw [startsWord_append_of_isGap left, startsWord_append_of_isGap right]

/-- **Texts that are alike have the same words up to case.** -/
theorem words_eq (hst : Alike s t) :
    (words s).map (List.map Char.toLower) = (words t).map (List.map Char.toLower) := by
  induction hst with
  | nil => rfl
  | @char c d s t _ letter rest ih =>
    rw [words, words, isWord_of_toLower letter, rest.startsWord_eq]
    split
    · generalize words s = vs, words t = ws at ih
      cases startsWord t with
      | false => simp [ih, letter]
      | true =>
        -- The character goes on the first word, if there is one, on both sides.
        cases vs with
        | nil =>
          obtain rfl : ws = [] := List.map_eq_nil_iff.1 ih.symm
          simp [letter]
        | cons v vs =>
          cases ws with
          | nil => cases ih
          | cons w ws =>
            obtain ⟨hw, hws⟩ := List.cons.inj ih
            simp [letter, hw, hws]
    · exact ih
  | gap left right _ _ ih =>
    rw [words_of_not_isWord fun c hc => isWord_of_isSpace (left.2 c hc),
      words_of_not_isWord fun c hc => isWord_of_isSpace (right.2 c hc), ih]

/-- **Texts that are alike have each keyword as often.** -/
theorem count_eq (hst : Alike s t) (k : Keyword) : k.count s = k.count t := by
  have hspell (w : Text) : k.IsSpelling (w.map Char.toLower) ↔ k.IsSpelling w :=
    Keyword.isSpelling_of_toLower (by
      rw [List.map_map]
      exact List.map_congr_left fun c _ => apply_toLower Char.toLower (by decide) c)
  have hcount (t : Text) : k.count t =
      ((words t).map (List.map Char.toLower)).countP fun w => k.IsSpelling w := by
    rw [k.count_eq_countP_words, List.countP_map]
    exact List.countP_congr fun w _ => by simp [hspell]
  rw [hcount, hcount, hst.words_eq]

theorem namesObject_eq (hst : Alike s t) : s.namesObject = t.namesObject := by
  have hstands (k : Keyword) : k.standsIn s = k.standsIn t := by
    rw [Bool.eq_iff_iff, Keyword.standsIn_iff_count_pos, Keyword.standsIn_iff_count_pos,
      hst.count_eq]
  simp only [namesObject, hstands]

/-! ## Endings -/

/-- Labels that are alike count alike. -/
theorem isCounted_eq (hst : Alike s t) (hs : ∀ c ∈ s, isWord c = true) :
    (Ending.ofLabel s).isCounted = (Ending.ofLabel t).isCounted := by
  have hupper : upper s = upper t :=
    upper_of_toLower (hst.toLower_eq fun c hc => isSpace_of_isWord (hs c hc))
  rw [Bool.eq_iff_iff, isCounted_ofLabel_iff, isCounted_ofLabel_iff, hst.eq_nil_iff, hupper]

/-- Where one of two texts starts with an ending, the other one starts with one that is alike. -/
theorem isEnding (hst : Alike (w ++ g ++ l ++ m :: r) t) (h : IsEnding w g l m r) :
    ∃ w' g' l' r', t = w' ++ g' ++ l' ++ m :: r' ∧ IsEnding w' g' l' m r' ∧ Alike l l' ∧
      Alike r r' := by
  have htext : w ++ g ++ l ++ m :: r = w ++ (g ++ l ++ m :: r) := by
    simp only [List.append_assoc]
  have hsolid : isSpace m = false := isSpace_of_isClosingMark h.mark
  rw [htext] at hst
  obtain ⟨w', after, rfl, hw, hafter⟩ := hst.split (.inl (endsSolid_of_isWord h.spelling.isWord))
  have hborder := h.border
  rw [hafter.startsWord_eq] at hborder
  obtain ⟨gap, rest, rfl, hgap, hrest⟩ := hafter.split (.inr (startsSolid_cons hsolid))
  obtain ⟨g', l', rfl, hg, hl⟩ := hgap.split (.inr (startsSolid_of_isWord h.label))
  obtain ⟨m', r', rfl, hm, hr⟩ := hrest.exists_cons hsolid
  have hmark : isClosingMark m' = true :=
    (apply_of_toLower isClosingMark (by decide) hm).symm.trans h.mark
  obtain rfl : m' = m := by
    obtain rfl | rfl := isClosingMark_iff.1 h.mark
    · exact eq_of_toLower (by decide) hm
    · exact eq_of_toLower (by decide) hm
  exact ⟨w', g', l', r', by simp only [List.append_assoc],
    ⟨hw.isSpelling h.spelling, hborder, hg.forall_isSpace h.gap, hl.forall_isWord h.label, hmark⟩,
    hl, hr⟩

theorem ending_eq_none {b : Bool} (hst : Alike s t) (h : ending b s = none) :
    ending b t = none := by
  refine Option.eq_none_iff_forall_ne_some.2 fun ⟨_, _⟩ hfound => ?_
  obtain ⟨hparts⟩ := readsEnding_iff.2 hfound
  obtain ⟨w', g', l', r', rfl, hparts', -⟩ := hst.symm.isEnding hparts
  rw [readsEnding_iff.1 (.parts hparts')] at h
  cases h

/-- **Texts that are alike have as many endings that count.** -/
theorem closings_eq (hst : Alike s t) : s.closings = t.closings := by
  rw [closings, closings, endings, endings, occurrences, occurrences]
  generalize false = b
  -- On the length of the text: an ending takes up any part of it.
  induction hlen : s.length using Nat.strongRecOn generalizing b s t with
  | _ len ih =>
    cases hmatch : ending b s with
    | some found =>
      obtain ⟨_, _⟩ := found
      obtain ⟨hparts⟩ := readsEnding_iff.2 hmatch
      rename_i w g l m r
      obtain ⟨w', g', l', r', rfl, hparts', hl, hr⟩ := hst.isEnding hparts
      have hshort : r.length < len := by
        rw [← hlen]
        simp only [List.length_append, List.length_cons]
        omega
      rw [← occurrences, ← occurrences, occurrences_of_isEnding hparts,
        occurrences_of_isEnding hparts', List.countP_cons, List.countP_cons,
        hl.isCounted_eq hparts.label, occurrences, occurrences, ih _ hshort hr false rfl]
    | none =>
      have hmatch' := hst.ending_eq_none hmatch
      cases hst with
      | nil => rfl
      | char solid letter rest =>
        rw [occurrences_cons_of_none hmatch, occurrences_cons_of_none hmatch',
          isWord_of_toLower letter]
        exact ih _ (by rw [← hlen]; exact Nat.lt_succ_self _) rest _ rfl
      | @gap g h s t left right lines rest =>
        have hpass {g u : Text} (hg : IsGap g) :
            occurrencesFrom ending 0 b (g ++ u) = occurrences ending u := by
          rw [startsWords_ending.occurrencesFrom_eq (startsWord_append_of_isGap hg),
            startsWords_ending.occurrences_of_not_isWord
              fun c hc => isWord_of_isSpace (hg.2 c hc)]
        have hshort : s.length < len := by
          rw [← hlen, List.length_append]
          exact Nat.lt_add_of_pos_left (List.length_pos_of_ne_nil left.1)
        rw [hpass left, hpass right, occurrences, occurrences, ih _ hshort rest false rfl]

/-! ## Lines that replace a table -/

/-- What is alike to a phrase is a phrase. -/
theorem isPhrase {ks : List Keyword} (hst : Alike u t) (hu : IsPhrase ks u) : IsPhrase ks t := by
  induction hu generalizing t with
  | last hw => exact .last (hst.isSpelling hw)
  | @cons k ks w g u hw hg hu ih =>
    obtain ⟨front, u', rfl, hfront, hu'⟩ := hst.split (.inr (startsSolid_of_isPhrase hu))
    obtain ⟨w', g', rfl, hw', hg'⟩ := hfront.split (.inl (endsSolid_of_isWord hw.isWord))
    exact .cons (hw'.isSpelling hw) (hg'.isGap hg) (ih hu')

theorem not_mem_lf (hst : Alike s t) (hs : '\n' ∉ s) : '\n' ∉ t := by
  rw [← List.count_eq_zero, hst.count_lf_eq] at *
  exact hs

/-- A text that is alike to one that ends inside a comment ends inside a comment. -/
theorem inComment (hst : Alike s t) (hs : InComment s) : InComment t := by
  obtain ⟨front, back, rfl, hback⟩ := hs
  have hdash : isSpace '-' = false := by decide
  rw [List.append_assoc] at hst
  obtain ⟨front', rest, rfl, -, hrest⟩ := hst.split (.inr (startsSolid_cons hdash))
  obtain ⟨c, rest, rfl, hc, hrest⟩ := hrest.exists_cons hdash
  obtain ⟨d, back', rfl, hd, hback'⟩ := hrest.exists_cons hdash
  obtain rfl : c = '-' := eq_of_toLower (by decide) hc
  obtain rfl : d = '-' := eq_of_toLower (by decide) hd
  exact ⟨front', back', by simp [commentMark], hback'.not_mem_lf hback⟩

theorem mem_replacementLines {n : Nat} (hst : Alike s t) (hn : n ∈ s.replacementLines) :
    n ∈ t.replacementLines := by
  obtain ⟨pre, u, post, rfl, hu, hlf, hcomment, rfl⟩ := mem_replacementLines_iff_isPhrase.1 hn
  obtain ⟨code, post', rfl, hcode, -⟩ := hst.split (.inl (endsSolid_of_isPhrase hu pre))
  obtain ⟨pre', u', rfl, hpre, hu'⟩ := hcode.split (.inr (startsSolid_of_isPhrase hu))
  exact mem_replacementLines_iff_isPhrase.2 ⟨pre', u', post', rfl, hu'.isPhrase hu,
    hu'.not_mem_lf hlf, mt hcode.symm.inComment hcomment, by rw [hpre.count_lf_eq]⟩

/-- **Texts that are alike have the same lines that replace a table.** -/
theorem replacementLines_eq (hst : Alike s t) : s.replacementLines = t.replacementLines :=
  (replacementLines_pairwise s).eq_of_mem_iff (replacementLines_pairwise t) fun _ =>
    ⟨hst.mem_replacementLines, hst.symm.mem_replacementLines⟩

/-! ## Reports -/

/-- **Texts that are alike have the same report.** -/
theorem validate_eq (hst : Alike s t) (p : Path) : s.validate p = t.validate p := by
  have hdoubts : s.doubts = t.doubts := by
    rw [doubts, doubts, hst.namesObject_eq, openings, openings, hst.count_eq, hst.closings_eq]
  rw [validate, validate, findings, findings, hst.isBlank_eq, hst.replacementLines_eq, hdoubts]

end Alike

/-! ## Layout -/

/-- A piece without white space. -/
def IsSolid (u : Text) : Prop := ∀ c ∈ u, isSpace c = false

instance : DecidablePred IsSolid := fun u =>
  decidable_of_iff (u.all (fun c => !isSpace c) = true) (by simp [IsSolid])

/-- Two texts differ in layout only: runs of white space in one of them stand for runs in the other
that have as many line feeds.  Runs side by side make one run, so a run need not be taken whole. -/
inductive Respaced : Text → Text → Prop
  | nil : Respaced [] []
  | solid {u s t : Text} (same : IsSolid u) (rest : Respaced s t) : Respaced (u ++ s) (u ++ t)
  | run {g h s t : Text} (left : IsGap g) (right : IsGap h) (lines : g.count '\n' = h.count '\n')
      (rest : Respaced s t) : Respaced (g ++ s) (h ++ t)

theorem Respaced.alike (hst : Respaced s t) : Alike s t := by
  induction hst with
  | nil => exact .nil
  | @solid u s t hu rest ih =>
    induction u with
    | nil => exact ih
    | cons c u hrest =>
      exact .char (hu c List.mem_cons_self) rfl
        (hrest fun d hd => hu d (List.mem_cons_of_mem c hd))
  | run left right lines _ ih => exact .gap left right lines ih

/-- **Layout does not matter.**  Texts that differ in runs of white space only, with as many line
feeds in each, have the same report: the same status, the same errors with the same line numbers,
and the same warnings with the same counts. -/
theorem validate_respaced (hst : Respaced s t) (p : Path) : s.validate p = t.validate p :=
  hst.alike.validate_eq p

/-- Line ends of two characters, another indentation and a no-break space leave the report as it is,
an error on the second line. -/
theorem validate_respaced_lineEnds :
    let s : Text := "BEGIN".toList ++ ("\n\t".toList ++ ("CREATE".toList ++ (" ".toList ++
      ("OR".toList ++ (" ".toList ++ ("REPLACE".toList ++ ("\t ".toList ++
      ("TABLE".toList ++ []))))))))
    let t : Text := "BEGIN".toList ++ (" \r\n    ".toList ++ ("CREATE".toList ++ ("\u00a0".toList ++
      ("OR".toList ++ ("\u2028".toList ++ ("REPLACE".toList ++ (" ".toList ++
      ("TABLE".toList ++ []))))))))
    Respaced s t ∧ s.replacementLines = [2] ∧
      s.validate (.ofString "a.sql") = t.validate (.ofString "a.sql") := by
  intro s t
  have hst : Respaced s t :=
    .solid (by decide) <| .run (by decide) (by decide) rfl <|
    .solid (by decide) <| .run (by decide) (by decide) rfl <|
    .solid (by decide) <| .run (by decide) (by decide) rfl <|
    .solid (by decide) <| .run (by decide) (by decide) rfl <|
    .solid (by decide) .nil
  exact ⟨hst, by decide +kernel, validate_respaced hst _⟩

/-! ## Letter case -/

theorem alike_of_toLower (h : s.map Char.toLower = t.map Char.toLower) : Alike s t := by
  induction s generalizing t with
  | nil =>
    obtain rfl : t = [] := List.map_eq_nil_iff.1 h.symm
    exact .nil
  | cons c s ih =>
    cases t with
    | nil => cases h
    | cons d t =>
      obtain ⟨letter, hrest⟩ := List.cons.inj h
      cases hc : isSpace c with
      | false => exact .char hc letter (ih hrest)
      | true =>
        have hd : isSpace d = true := (isSpace_of_toLower letter).symm.trans hc
        have hlf : (c == '\n') = (d == '\n') := apply_of_toLower (· == '\n') (by decide) letter
        have gap {e : Char} (he : isSpace e = true) : IsGap [e] := by simp [IsGap, he]
        exact .gap (gap hc) (gap hd) (by rw [List.count_singleton, List.count_singleton, hlf])
          (ih hrest)

/-- **Letter case does not matter.**  Texts that are the same up to the case of ASCII letters,
wherever these stand, have the same report, although keywords are folded and the labels of endings
are compared in full capitals. -/
theorem validate_recased (h : s.map Char.toLower = t.map Char.toLower) (p : Path) :
    s.validate p = t.validate p :=
  (alike_of_toLower h).validate_eq p

/-- The dotless i has the capital of i, and the KELVIN SIGN is read as a k, in either case of the
letters beside them. -/
theorem validate_recased_beyondAscii :
    let s : Text := "Create pac\u212aAGE a IS BEGIN IF x THEN y; End ıF; end A; -- Or".toList
    let t : Text := "CREATE PAC\u212aage A is begin if X then Y; END ıf; END a; -- oR".toList
    s.map Char.toLower = t.map Char.toLower ∧ s.closings = 1 ∧
      s.validate (.ofString "a.sql") = t.validate (.ofString "a.sql") := by
  intro s t
  have h : s.map Char.toLower = t.map Char.toLower := by decide +kernel
  exact ⟨h, by decide +kernel, validate_recased h _⟩

end SqlSanity.Text
