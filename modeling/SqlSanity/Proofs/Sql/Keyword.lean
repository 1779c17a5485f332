import SqlSanity.Proofs.Sql.Phrase
import SqlSanity.Proofs.Text.Case
import SqlSanity.Proofs.Text.Word
import SqlSanity.Sql.Block

/-!
# Proofs/Sql/Keyword — whatever a check counts or objects to is a keyword of its own

The checks find their keywords by different searches: BEGIN by itself, END at the head of an ending,
REPLACE within a phrase that may be glued to other letters.  Each of these is a keyword standing as
a whole word: a gap of white space is a word border on both sides, and an ending starts with the
whole word END.  Hence a source with any of them names an object.

* `Keyword.standsIn_iff` — a keyword stands in a text exactly where a spelling has a border on both
  sides;
* `Keyword.count_eq_countP_words` — a keyword is counted word by word;
* `Text.namesObject_of_openings_ne`, `Text.namesObject_of_mem_replacementLines` — a source whose
  counts differ names an object, and so does one with a line that replaces a table.
-/

namespace SqlSanity

/-! ## Whole words -/

/-- **A keyword stands in a text exactly where a spelling of it has a word border on both
sides.** -/
theorem Keyword.standsIn_iff {k : Keyword} {t : Text} :
    k.standsIn t = true ↔
      ∃ pre w post, t = pre ++ w ++ post ∧ Text.endsWord pre = false ∧ k.IsSpelling w ∧
        Text.startsWord post = false := by
  rw [standsIn, Text.contains_iff]
  constructor
  · rintro ⟨pre, c, post, rfl, h⟩
    obtain ⟨⟨_, n⟩, hm⟩ := Option.isSome_iff_exists.1 h
    obtain ⟨hb, -, r, hr, hborder⟩ := find_eq_some_iff.1 hm
    obtain ⟨w, hw, hspell⟩ := strip?_eq_some_iff.1 hr
    exact ⟨pre, w, r, by rw [hw, List.append_assoc], hb, hspell, hborder⟩
  · rintro ⟨pre, w, post, rfl, hb, hspell, hborder⟩
    have hm : k.find (Text.endsWord pre) (w ++ post) = some ((), k.letters.length) :=
      find_eq_some_iff.2 ⟨hb, rfl, post, strip?_eq_some_iff.2 ⟨w, rfl, hspell⟩, hborder⟩
    obtain ⟨c, v, rfl⟩ := List.exists_cons_of_ne_nil hspell.ne_nil
    refine ⟨pre, c, v ++ post, by rw [List.append_assoc, List.cons_append], ?_⟩
    rw [← List.cons_append, hm]
    rfl

namespace Keyword

variable {k : Keyword} {s t u w : Text} {b : Bool}

/-- A keyword without k and s is spelled in ASCII letters only. -/
theorem isSpelling_iff_toLower (hk : 'k' ∉ k.letters) (hs : 's' ∉ k.letters) :
    k.IsSpelling w ↔ w.map Char.toLower = k.letters :=
  Text.map_foldChar_eq_iff fun _ ha =>
    ⟨k.toNat_lt_of_mem_letters ha, fun h => hk (h ▸ ha), fun h => hs (h ▸ ha)⟩

/-- What a keyword spells does not depend on letter case. -/
theorem isSpelling_of_toLower (h : s.map Char.toLower = t.map Char.toLower) :
    k.IsSpelling s ↔ k.IsSpelling t := by
  rw [IsSpelling, IsSpelling, Text.foldChar_of_toLower h]

/-- A keyword is found where a spelling of it has a border on both sides. -/
theorem find_append (hw : k.IsSpelling w) (h : Text.startsWord u = false) :
    k.find false (w ++ u) = some ((), w.length) := by
  rw [hw.length_eq]
  exact find_eq_some_iff.2 ⟨rfl, rfl, u, strip?_eq_some_iff.2 ⟨w, rfl, hw⟩, h⟩

theorem exists_of_isSome_find (h : (k.find b t).isSome = true) :
    b = false ∧ ∃ w u, t = w ++ u ∧ k.IsSpelling w ∧ Text.startsWord u = false := by
  obtain ⟨⟨_, n⟩, hsome⟩ := Option.isSome_iff_exists.1 h
  obtain ⟨hb, -, u, hstrip, hborder⟩ := find_eq_some_iff.1 hsome
  obtain ⟨w, rfl, hw⟩ := strip?_eq_some_iff.1 hstrip
  exact ⟨hb, w, u, rfl, hw, hborder⟩

/-- A word that is no spelling of the keyword is passed over. -/
theorem find_eq_none (hw : ∀ c ∈ w, Text.isWord c = true) (hu : Text.startsWord u = false)
    (h : ¬k.IsSpelling w) : k.find false (w ++ u) = none := by
  rw [← Option.not_isSome_iff_eq_none]
  intro hsome
  obtain ⟨-, w', u', heq, hw', hu'⟩ := exists_of_isSome_find hsome
  obtain ⟨rfl, -⟩ := Text.append_eq_append_of_isWord hw hw'.isWord hu hu' heq
  exact h hw'

theorem startsWords_find (k : Keyword) : Text.StartsWords k.find where
  inside _ := rfl
  outside {t} ht := by
    rw [← Option.not_isSome_iff_eq_none]
    intro hsome
    obtain ⟨-, w, u, rfl, hw, -⟩ := exists_of_isSome_find hsome
    rw [Text.startsWord_of_isWord hw.ne_nil hw.isWord] at ht
    cases ht

theorem progresses_find (k : Keyword) : Text.Progresses k.find := by
  intro b t _ n h
  obtain ⟨-, rfl, u, hu, -⟩ := find_eq_some_iff.1 h
  obtain ⟨w, rfl, hw⟩ := strip?_eq_some_iff.1 hu
  rw [← hw.length_eq, List.length_append]
  exact ⟨List.length_pos_of_ne_nil hw.ne_nil, Nat.le_add_right _ _⟩

/-! ## Counting words -/

/-- **A keyword is counted once for each word that spells it.** -/
theorem count_eq_countP_words (k : Keyword) (t : Text) :
    k.count t = (Text.words t).countP fun w => k.IsSpelling w := by
  rw [count]
  induction t using Text.induction_words with
  | nil => rfl
  | other c t hc ih =>
    rw [k.startsWords_find.occurrences_cons hc, Text.words_cons_of_not_isWord hc, ih]
  | word w t hne hw ht ih =>
    rw [Text.words_append_of_isWord hne hw ht, List.countP_cons]
    by_cases hspell : k.IsSpelling w
    · have hfound : k.find false (w ++ t) = some ((), w.length) := find_append hspell ht
      rw [k.startsWords_find.occurrences_of_some k.progresses_find hfound (.inr ht),
        List.length_cons, ih]
      simp [hspell]
    · rw [k.startsWords_find.occurrences_of_none hne hw ht (find_eq_none hw ht hspell), ih]
      simp [hspell]

/-- A word border parts what is counted before it from what is counted after it. -/
theorem count_append (h : Text.endsWord s = false ∨ Text.startsWord t = false) :
    k.count (s ++ t) = k.count s + k.count t := by
  rw [count_eq_countP_words, count_eq_countP_words, count_eq_countP_words, Text.words_append h,
    List.countP_append]

/-- A keyword stands in a text exactly when it is counted there. -/
theorem standsIn_iff_count_pos : k.standsIn t = true ↔ 0 < k.count t := by
  rw [standsIn, Text.contains, Bool.not_eq_true', List.isEmpty_eq_false_iff, count,
    List.length_pos_iff]

/-- **A keyword stands in a text exactly when a word of the text spells it.** -/
theorem standsIn_iff_exists_mem_words :
    k.standsIn t = true ↔ ∃ w ∈ Text.words t, k.IsSpelling w := by
  rw [standsIn_iff_count_pos, count_eq_countP_words, List.countP_pos_iff]
  simp only [decide_eq_true_eq]

end Keyword

namespace Text

/-- A source with an object keyword as a whole word names an object. -/
theorem namesObject_of_standsIn {k : Keyword} {t : Text} (hk : k ∈ Keyword.objectKeywords)
    (h : k.standsIn t = true) : t.namesObject = true :=
  List.any_eq_true.2 ⟨k, hk, h⟩

/-! ## The balance -/

/-- A source that opens a block names an object. -/
theorem namesObject_of_openings_pos {t : Text} (h : 0 < t.openings) : t.namesObject = true :=
  namesObject_of_standsIn (by decide) (Keyword.standsIn_iff_count_pos.2 h)

/-- An ending starts with the whole word END. -/
theorem isSome_find_of_isSome_ending {b : Bool} {t : Text} (h : (ending b t).isSome = true) :
    (Keyword.blockEnd.find b t).isSome = true := by
  rw [ending] at h
  split at h
  · exact absurd h Bool.false_ne_true
  · next hm => rw [hm, Option.isSome_some]

theorem ending_of_find {b : Bool} {t : Text} (h : Keyword.blockEnd.find b t = none) :
    ending b t = none := by
  rw [ending, h]

/-- A source with an ending that counts names an object. -/
theorem namesObject_of_closings_pos {t : Text} (h : 0 < t.closings) : t.namesObject = true := by
  obtain ⟨e, he, -⟩ := List.countP_pos_iff.1 h
  have hend : contains ending t = true := by
    rw [contains, Bool.not_eq_true', List.isEmpty_eq_false_iff]
    exact List.ne_nil_of_mem he
  exact namesObject_of_standsIn (k := .blockEnd) (by decide)
    (contains_mono (fun _ _ => isSome_find_of_isSome_ending) hend)

/-- **A source whose openings and closings differ names an object.** -/
theorem namesObject_of_openings_ne {t : Text} (h : t.openings ≠ t.closings) :
    t.namesObject = true := by
  rcases Nat.lt_or_gt_of_ne h with h | h
  · exact namesObject_of_closings_pos (Nat.zero_lt_of_lt h)
  · exact namesObject_of_openings_pos (Nat.zero_lt_of_lt h)

/-! ## Lines that replace a table -/

/-- A gap leaves no word open behind it. -/
theorem endsWord_append_of_isGap {t g : Text} (hg : IsGap g) : endsWord (t ++ g) = false := by
  rw [← List.dropLast_concat_getLast hg.1, ← List.append_assoc, endsWord_concat]
  exact isWord_of_isSpace (hg.2 _ (List.getLast_mem hg.1))

/-- A gap goes on with no word. -/
theorem startsWord_append_of_isGap {g t : Text} (hg : IsGap g) : startsWord (g ++ t) = false := by
  obtain ⟨c, g, rfl⟩ := List.exists_cons_of_ne_nil hg.1
  exact isWord_of_isSpace (hg.2 c List.mem_cons_self)

/-- The third keyword of the phrase has a gap on both sides. -/
theorem exists_replace_of_isPhrase {u : Text} (h : IsPhrase replaceTable u) :
    ∃ pre g w g' post, u = pre ++ g ++ w ++ (g' ++ post) ∧ IsGap g ∧
      Keyword.replace.IsSpelling w ∧ IsGap g' := by
  cases h with
  | @cons _ _ w₁ g₁ _ hw₁ hg₁ h =>
    cases h with
    | @cons _ _ w₂ g₂ _ hw₂ hg₂ h =>
      cases h with
      | @cons _ _ w₃ g₃ u₄ hw₃ hg₃ h =>
        exact ⟨w₁ ++ g₁ ++ w₂, g₂, w₃, g₃, u₄, by simp only [List.append_assoc], hg₂, hw₃, hg₃⟩

/-- **A source with a line that replaces a table names an object.** -/
theorem namesObject_of_mem_replacementLines {t : Text} {n : Nat} (h : n ∈ t.replacementLines) :
    t.namesObject = true := by
  obtain ⟨before, _, after, rfl, -, ⟨⟨pre, u, rfl, hu⟩, -, -⟩, -⟩ := mem_replacementLines_iff.1 h
  obtain ⟨pre', g, w, g', post, rfl, hg, hw, hg'⟩ := exists_replace_of_isPhrase hu
  refine namesObject_of_standsIn (k := .replace) (by decide) (Keyword.standsIn_iff.2
    ⟨before ++ pre ++ pre' ++ g, w, g' ++ (post ++ after), ?_, endsWord_append_of_isGap hg, hw,
      startsWord_append_of_isGap hg'⟩)
  simp only [List.append_assoc]

end Text

end SqlSanity
