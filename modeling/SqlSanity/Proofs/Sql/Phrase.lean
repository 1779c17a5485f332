import SqlSanity.Proofs.Text.Line
import SqlSanity.Proofs.Text.Space
import SqlSanity.Sql.Replacement

/-!
# Proofs/Sql/Phrase — phrases of keywords as places in the text

A *phrase* is some keywords in order, each in a spelling of its own, with a gap of white space
between any two.  The search for one takes each keyword and then all the white space that follows;
nothing is lost by that, since no keyword starts with white space, so the search finds exactly the
phrases.  Put together with the reading of lines and comments as places, the lines that replace a
table are known from the text alone.

* `Text.phrase?_eq_some_iff` — stripping takes exactly a phrase;
* `Text.hasPhrase_iff` — a text has a phrase exactly when one stands in it;
* `Text.mem_replacementLines_iff`, `Text.mem_replacementLines_iff_isPhrase` — the numbers of the
  lines that replace a table.
-/

namespace SqlSanity

namespace Keyword

/-- A spelling of a keyword: its letters, each in either case. -/
def IsSpelling (k : Keyword) (w : Text) : Prop := w.map Text.foldChar = k.letters

instance (k : Keyword) : DecidablePred k.IsSpelling := fun w =>
  inferInstanceAs (Decidable (w.map Text.foldChar = k.letters))

variable {k : Keyword} {w t r : Text}

theorem letters_ne_nil (k : Keyword) : k.letters ≠ [] := by cases k <;> decide

theorem isLetter_of_mem_letters (k : Keyword) : ∀ a ∈ k.letters, Text.isLetter a = true := by
  refine List.all_eq_true.1 ?_
  cases k <;> decide

theorem toNat_lt_of_mem_letters (k : Keyword) {a : Char} (ha : a ∈ k.letters) : a.toNat < 0x80 := by
  have hletter := isLetter_of_mem_letters k a ha
  simp only [Text.isLetter, Bool.and_eq_true, decide_eq_true_eq] at hletter
  omega

theorem strip?_eq_some_iff : k.strip? t = some r ↔ ∃ w, t = w ++ r ∧ k.IsSpelling w :=
  Text.strip?_eq_some_iff

theorem IsSpelling.ne_nil (h : k.IsSpelling w) : w ≠ [] := fun h0 =>
  letters_ne_nil k (by rw [← h, h0, List.map_nil])

theorem IsSpelling.length_eq (h : k.IsSpelling w) : w.length = k.letters.length := by
  rw [← h, List.length_map]

theorem IsSpelling.isLetter_foldChar (h : k.IsSpelling w) :
    ∀ c ∈ w, Text.isLetter (Text.foldChar c) = true := fun _ hc =>
  isLetter_of_mem_letters k _ (h ▸ List.mem_map_of_mem hc)

/-- A spelling holds word characters only. -/
theorem IsSpelling.isWord (h : k.IsSpelling w) : ∀ c ∈ w, Text.isWord c = true := fun c hc =>
  Text.isWord_of_letter (h.isLetter_foldChar c hc)

end Keyword

namespace Text

/-! ## Gaps -/

/-- A gap: white space, and at least one character of it. -/
def IsGap (g : Text) : Prop := g ≠ [] ∧ ∀ c ∈ g, isSpace c = true

instance : DecidablePred IsGap := fun g =>
  decidable_of_iff (g ≠ [] ∧ g.all isSpace = true) (and_congr_right fun _ => List.all_eq_true)

/-- What is taken off as a gap is one. -/
theorem exists_isGap_of_dropGap? {t r : Text} (h : t.dropGap? = some r) :
    ∃ g, IsGap g ∧ t = g ++ r := by
  obtain ⟨c, u, rfl, hc, rfl⟩ := dropGap?_eq_some_iff.1 h
  refine ⟨c :: u.takeWhile isSpace, ⟨List.cons_ne_nil _ _, fun d hd => ?_⟩, ?_⟩
  · rcases List.mem_cons.1 hd with rfl | hd
    · exact hc
    · exact List.all_eq_true.1 List.all_takeWhile d hd
  · rw [dropSpace, List.cons_append, List.takeWhile_append_dropWhile]

/-- A gap is taken off as a whole, and no more than it. -/
theorem dropGap?_append {g r : Text} (hg : IsGap g) (hr : ∀ c ∈ r.head?, isSpace c = false) :
    (g ++ r).dropGap? = some r := by
  obtain ⟨c, g, rfl⟩ := List.exists_cons_of_ne_nil hg.1
  have hrest : dropSpace r = r := by
    cases r with
    | nil => rfl
    | cons d r => exact dropSpace_eq_self (hr d rfl)
  refine dropGap?_eq_some_iff.2 ⟨c, g ++ r, rfl, hg.2 c List.mem_cons_self, ?_⟩
  rw [dropSpace, List.dropWhile_append_of_pos fun d hd => hg.2 d (List.mem_cons_of_mem _ hd)]
  exact hrest.symm

/-! ## Phrases -/

/-- A phrase: a spelling of each keyword in order, with a gap between any two. -/
inductive IsPhrase : List Keyword → Text → Prop
  | last {k : Keyword} {w : Text} (hw : k.IsSpelling w) : IsPhrase [k] w
  | cons {k : Keyword} {ks : List Keyword} {w g u : Text} (hw : k.IsSpelling w) (hg : IsGap g)
      (hu : IsPhrase ks u) : IsPhrase (k :: ks) (w ++ g ++ u)

variable {ks : List Keyword} {t r u : Text}

/-- A phrase starts with a letter. -/
theorem IsPhrase.exists_cons (h : IsPhrase ks u) :
    ∃ c v, u = c :: v ∧ isLetter (foldChar c) = true := by
  have start {k : Keyword} {w : Text} (hw : k.IsSpelling w) :
      ∃ c v, w = c :: v ∧ isLetter (foldChar c) = true := by
    obtain ⟨c, v, rfl⟩ := List.exists_cons_of_ne_nil hw.ne_nil
    exact ⟨c, v, rfl, hw.isLetter_foldChar c List.mem_cons_self⟩
  cases h with
  | last hw => exact start hw
  | cons hw hg hu =>
    obtain ⟨c, v, rfl, hc⟩ := start hw
    exact ⟨c, _, rfl, hc⟩

/-- A phrase ends with a letter. -/
theorem IsPhrase.exists_concat (h : IsPhrase ks u) :
    ∃ v c, u = v ++ [c] ∧ isLetter (foldChar c) = true := by
  induction h with
  | @last k w hw =>
    refine ⟨w.dropLast, w.getLast hw.ne_nil, (List.dropLast_concat_getLast hw.ne_nil).symm, ?_⟩
    exact hw.isLetter_foldChar _ (List.getLast_mem hw.ne_nil)
  | cons hw hg hu ih =>
    obtain ⟨v, c, rfl, hc⟩ := ih
    exact ⟨_, c, (List.append_assoc _ _ _).symm, hc⟩

/-- A text that a phrase ends has a letter for its last character. -/
theorem IsPhrase.isLetter_of_mem_getLast? (hu : IsPhrase ks u) (pre : Text) :
    ∀ c ∈ (pre ++ u).getLast?, isLetter (foldChar c) = true := by
  obtain ⟨v, d, rfl, hd⟩ := hu.exists_concat
  intro c hc
  rw [← List.append_assoc, List.getLast?_concat] at hc
  exact Option.some.inj hc ▸ hd

/-- No phrase ends in half a comment mark. -/
theorem IsPhrase.getLast?_append_ne (hu : IsPhrase ks u) (pre : Text) :
    (pre ++ u).getLast? ≠ some '-' := fun h =>
  absurd (hu.isLetter_of_mem_getLast? pre _ h) (by decide)

theorem phrase?_cons {k : Keyword} (hks : ks ≠ []) :
    phrase? (k :: ks) t = ((k.strip? t).bind dropGap?).bind (phrase? ks) := by
  cases ks with
  | nil => exact absurd rfl hks
  | cons k' ks => rfl

/-- **Stripping takes exactly a phrase.** -/
theorem phrase?_eq_some_iff : ∀ {ks : List Keyword} {t r : Text}, ks ≠ [] →
    (phrase? ks t = some r ↔ ∃ u, t = u ++ r ∧ IsPhrase ks u)
  | [], _, _, h => absurd rfl h
  | [k], t, r, _ => by
    rw [phrase?, Keyword.strip?_eq_some_iff]
    constructor
    · rintro ⟨w, rfl, hw⟩
      exact ⟨w, rfl, .last hw⟩
    · rintro ⟨u, rfl, hu⟩
      cases hu with
      | last hw => exact ⟨u, rfl, hw⟩
      | cons hw hg hu => cases hu
  | k :: k' :: ks, t, r, _ => by
    have ih := fun t r => @phrase?_eq_some_iff (k' :: ks) t r (List.cons_ne_nil _ _)
    rw [phrase?_cons (List.cons_ne_nil _ _)]
    simp only [Option.bind_eq_some_iff, ih, Keyword.strip?_eq_some_iff]
    constructor
    · rintro ⟨s, ⟨_, ⟨w, rfl, hw⟩, hs⟩, u, rfl, hu⟩
      obtain ⟨g, hg, rfl⟩ := exists_isGap_of_dropGap? hs
      exact ⟨w ++ g ++ u, by simp only [List.append_assoc], .cons hw hg hu⟩
    · rintro ⟨_, rfl, hu⟩
      cases hu with
      | @cons _ _ w g u hw hg hu =>
        -- The gap ends where the next keyword starts, because that is with a letter.
        obtain ⟨c, v, rfl, hc⟩ := hu.exists_cons
        refine ⟨c :: v ++ r, ⟨g ++ (c :: v ++ r), ⟨w, by simp only [List.append_assoc], hw⟩, ?_⟩,
          c :: v, rfl, hu⟩
        refine dropGap?_append hg fun d hd => ?_
        obtain rfl : c = d := Option.some.inj hd
        exact isSpace_of_letter hc

/-- **A text has a phrase exactly when one stands in it.** -/
theorem hasPhrase_iff (hks : ks ≠ []) : ∀ {t : Text},
    hasPhrase ks t = true ↔ ∃ pre u post, t = pre ++ u ++ post ∧ IsPhrase ks u
  | [] => by
    rw [hasPhrase, Option.isSome_iff_exists]
    constructor
    · rintro ⟨r, h⟩
      obtain ⟨u, hu, hp⟩ := (phrase?_eq_some_iff hks).1 h
      exact ⟨[], u, r, hu, hp⟩
    · rintro ⟨pre, u, post, h, hp⟩
      obtain ⟨c, v, rfl, -⟩ := hp.exists_cons
      simp at h
  | c :: t => by
    rw [hasPhrase, Bool.or_eq_true, hasPhrase_iff hks (t := t), Option.isSome_iff_exists]
    constructor
    · rintro (⟨r, h⟩ | ⟨pre, u, post, rfl, hp⟩)
      · obtain ⟨u, hu, hp⟩ := (phrase?_eq_some_iff hks).1 h
        exact ⟨[], u, r, hu, hp⟩
      · exact ⟨c :: pre, u, post, rfl, hp⟩
    · rintro ⟨pre, u, post, h, hp⟩
      cases pre with
      | nil => exact .inl ⟨post, (phrase?_eq_some_iff hks).2 ⟨u, h, hp⟩⟩
      | cons d pre =>
        obtain ⟨rfl, rfl⟩ := List.cons.inj h
        exact .inr ⟨pre, u, post, rfl, hp⟩

/-! ## Lines that replace a table -/

/-- A text that a phrase ends, with neither a line feed nor a comment mark before its end: the part
of a line up to the end of a phrase outside its comment. -/
structure EndsInPhrase (ks : List Keyword) (code : Text) : Prop where
  phrase : ∃ pre u, code = pre ++ u ∧ IsPhrase ks u
  oneLine : '\n' ∉ code
  noComment : ¬commentMark <:+: code

/-- A line has the phrase before its comment exactly when some piece from its start ends in it. -/
theorem hasPhrase_beforeComment_iff (hks : ks ≠ []) {line : Text} (hl : '\n' ∉ line) :
    hasPhrase ks line.beforeComment = true ↔ ∃ code, code <+: line ∧ EndsInPhrase ks code := by
  rw [hasPhrase_iff hks]
  constructor
  · rintro ⟨pre, u, post, h, hu⟩
    have hcode : pre ++ u <+: line.beforeComment := ⟨post, h.symm⟩
    have hline : pre ++ u <+: line := hcode.trans (beforeComment_isPrefix line)
    exact ⟨pre ++ u, hline, ⟨pre, u, rfl, hu⟩, fun hm => hl (hline.subset hm),
      fun hm => not_isInfix_beforeComment line (hm.trans hcode.isInfix)⟩
  · rintro ⟨_, hline, ⟨pre, u, rfl, hu⟩, -, hm⟩
    obtain ⟨post, hpost⟩ :=
      (isPrefix_beforeComment_iff (hu.getLast?_append_ne pre)).2 ⟨hline, hm⟩
    exact ⟨pre, u, post, hpost.symm, hu⟩

theorem mem_replacementsFrom_iff {m : Nat} : ∀ {n : Nat} {ls : List Text},
    m ∈ replacementsFrom n ls ↔ ∃ i l, ls[i]? = some l ∧ replacesTable l = true ∧ m = n + i
  | _, [] => by simp [replacementsFrom]
  | n, l :: ls => by
    have ih := @mem_replacementsFrom_iff m (n + 1) ls
    have step : m ∈ replacementsFrom n (l :: ls) ↔
        (replacesTable l = true ∧ m = n) ∨ m ∈ replacementsFrom (n + 1) ls := by
      rw [replacementsFrom]
      split
      · next h => simp [h]
      · next h => simp [h]
    rw [step, ih]
    constructor
    · rintro (⟨hl, rfl⟩ | ⟨i, l', hi, hl', rfl⟩)
      · exact ⟨0, l, rfl, hl, rfl⟩
      · exact ⟨i + 1, l', hi, hl', by omega⟩
    · rintro ⟨i, l', hi, hl', rfl⟩
      cases i with
      | zero => exact .inl ⟨Option.some.inj hi ▸ hl', rfl⟩
      | succ i => exact .inr ⟨i, l', hi, hl', by omega⟩

/-- **A line replaces a table exactly when, from its start on, a piece of the text without line
feed or comment mark ends in the phrase; the number of the line is one more than the line feeds
before it.** -/
theorem mem_replacementLines_iff {t : Text} {n : Nat} :
    n ∈ t.replacementLines ↔
      ∃ before code after, t = before ++ code ++ after ∧ LineStarts before ∧
        EndsInPhrase replaceTable code ∧ n = before.count '\n' + 1 := by
  have hks : replaceTable ≠ [] := List.cons_ne_nil _ _
  rw [replacementLines, mem_replacementsFrom_iff]
  constructor
  · rintro ⟨i, l, hi, hl, rfl⟩
    obtain ⟨hlf, before, after, rfl, hb, -, rfl⟩ := getElem?_lines_eq_some_iff.1 hi
    obtain ⟨code, ⟨rest, rfl⟩, hcode⟩ := (hasPhrase_beforeComment_iff hks hlf).1 hl
    exact ⟨before, code, rest ++ after, by simp only [List.append_assoc], hb, hcode, by omega⟩
  · rintro ⟨before, code, after, rfl, hb, hcode, rfl⟩
    -- The line goes on after the phrase up to the next line feed.
    let rest := after.takeWhile (· != '\n')
    have hrest : '\n' ∉ rest := fun h => by simpa using List.all_eq_true.1 List.all_takeWhile _ h
    have hafter : after = rest ++ after.dropWhile (· != '\n') := by
      rw [List.takeWhile_append_dropWhile]
    have hlf : '\n' ∉ code ++ rest := fun h => (List.mem_append.1 h).elim hcode.oneLine hrest
    have hend : LineEnds (after.dropWhile (· != '\n')) := fun c hc => by
      have := List.head?_dropWhile_not (· != '\n') after
      rw [Option.mem_def.1 hc] at this
      simpa using this
    refine ⟨before.count '\n', code ++ rest, ?_, ?_, by omega⟩
    · rw [getElem?_lines_eq_some_iff]
      refine ⟨hlf, before, after.dropWhile (· != '\n'), ?_, hb, hend, rfl⟩
      conv => lhs; rw [hafter]
      simp only [List.append_assoc]
    · exact (hasPhrase_beforeComment_iff hks hlf).2 ⟨code, List.prefix_append _ _, hcode⟩

/-- The text ends inside a line comment: a comment mark stands on its last line. -/
def InComment (t : Text) : Prop :=
  ∃ front back, t = front ++ commentMark ++ back ∧ '\n' ∉ back

/-- From the start of a line on, a text ends inside a comment exactly when a mark has been read. -/
theorem inComment_append_iff {before code : Text} (hb : LineStarts before) (hcode : '\n' ∉ code) :
    InComment (before ++ code) ↔ commentMark <:+: code := by
  constructor
  · rintro ⟨front, back, heq, hback⟩
    rw [List.append_assoc] at heq
    rcases List.append_eq_append_iff.1 heq with ⟨x, -, rfl⟩ | ⟨x, rfl, hx⟩
    · exact ⟨x, back, List.append_assoc _ _ _⟩
    · -- The mark starts before the line does, so there is no line feed for the line to start at.
      obtain rfl : x = [] := Classical.byContradiction fun hne => by
        have hlast := List.getLast?_eq_some_getLast hne
        have hlf : x.getLast hne = '\n' := hb _ (by rw [List.getLast?_append, hlast]; rfl)
        have hmem : '\n' ∈ commentMark ++ back :=
          hx ▸ List.mem_append_left code (hlf ▸ List.getLast_mem hne)
        rcases List.mem_append.1 hmem with h | h
        · exact absurd h (by decide)
        · exact hback h
      exact ⟨[], back, hx⟩
  · rintro ⟨front, back, rfl⟩
    exact ⟨before ++ front, back, by simp only [List.append_assoc],
      fun h => hcode (List.mem_append_right _ h)⟩

/-- **A line replaces a table exactly when the phrase stands on it outside a comment**; the number
of the line is one more than the line feeds before the phrase. -/
theorem mem_replacementLines_iff_isPhrase {t : Text} {n : Nat} :
    n ∈ t.replacementLines ↔
      ∃ pre u post, t = pre ++ u ++ post ∧ IsPhrase replaceTable u ∧ '\n' ∉ u ∧
        ¬InComment (pre ++ u) ∧ n = pre.count '\n' + 1 := by
  rw [mem_replacementLines_iff]
  constructor
  · rintro ⟨before, _, after, rfl, hb, ⟨⟨pre, u, rfl, hu⟩, hlf, hmark⟩, rfl⟩
    refine ⟨before ++ pre, u, after, by simp only [List.append_assoc], hu,
      fun h => hlf (List.mem_append_right pre h), ?_, ?_⟩
    · rwa [List.append_assoc, inComment_append_iff hb hlf]
    · rw [List.count_append, List.count_eq_zero.2 fun h => hlf (List.mem_append_left u h),
        Nat.add_zero]
  · rintro ⟨pre, u, post, rfl, hu, hlf, hcomment, rfl⟩
    obtain ⟨before, rest, rfl, hb, hrest⟩ := exists_lineStarts pre
    have hcode : '\n' ∉ rest ++ u := fun h => (List.mem_append.1 h).elim hrest hlf
    rw [List.append_assoc, inComment_append_iff hb hcode] at hcomment
    refine ⟨before, rest ++ u, post, by simp only [List.append_assoc], hb,
      ⟨⟨rest, u, rfl, hu⟩, hcode, hcomment⟩, ?_⟩
    rw [List.count_append, List.count_eq_zero.2 hrest, Nat.add_zero]

end Text

end SqlSanity
