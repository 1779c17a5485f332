import SqlSanity.Proofs.Validation

/-!
# Proofs/Sql/Replacement — the lines that are reported are those where the phrase stands

The lines that replace a table are found by cutting the text into lines and the lines at their
comments.  A reader of a source has positions instead: the phrase stands between two of them, on one
line and before any comment mark of that line.  The two agree for every text, whatever else than a
line feed seems to end a line, and whatever letters the phrase is glued to.

* `Text.StandsAt` — a phrase between two positions, on a line and outside its comment;
* `Text.mem_replacementLines_iff_standsAt` — the lines that replace a table, by position;
* `Text.lineErrors_exact` — the errors of a source, each offending line once and in order.
-/

namespace SqlSanity

/-- The number of a line can be read off the error for it. -/
theorem Objection.message_replacedTable_inj {m n : Nat}
    (h : (replacedTable m).message = (replacedTable n).message) : m = n := by
  rw [message, message, String.append_left_inj, String.append_right_inj] at h
  have hdigits : Nat.toDigits 10 m = Nat.toDigits 10 n := by
    rw [← String.ofList_inj, ← Nat.repr_eq_ofList_toDigits, ← Nat.repr_eq_ofList_toDigits]
    exact h
  rw [← Nat.ofDigitChars_toDigits (b := 10) (n := m) (by omega) (by omega), hdigits,
    Nat.ofDigitChars_toDigits (by omega) (by omega)]

namespace Text

/-- The keywords stand as a phrase from position `i` to `j` of the text, on the line that starts at
`start` and before its comment. -/
structure StandsAt (ks : List Keyword) (t : Text) (start i j : Nat) : Prop where
  start_le : start ≤ i
  lt : i < j
  le_length : j ≤ t.length
  lineStarts : LineStarts (t.take start)
  oneLine : '\n' ∉ t.extract start j
  phrase : IsPhrase ks (t.extract i j)
  noComment : ∀ k, start ≤ k → k < j → ¬commentMark <+: t.drop k

variable {ks : List Keyword} {t before code after pre u : Text} {start i j n : Nat}

/-! ## Positions -/

/-- What stands between two positions is put between what stands before the one and behind the
other. -/
theorem take_append_extract (h : i ≤ j) : t.take i ++ t.extract i j = t.take j := by
  rw [List.extract_eq_take_drop, ← List.take_add, Nat.add_sub_cancel' h]

/-- A piece of a text is what stands between its two ends. -/
theorem extract_append (before u after : Text) :
    (before ++ u ++ after).extract before.length (before.length + u.length) = u := by
  rw [List.extract_eq_take_drop, List.append_assoc, List.drop_left, Nat.add_sub_cancel_left,
    List.take_left]

/-- Two pieces side by side are one piece. -/
theorem extract_append_extract (hstart : start ≤ i) (h : i ≤ j) :
    t.extract start i ++ t.extract i j = t.extract start j := by
  have hwhole : t.take start ++ (t.extract start i ++ t.extract i j)
      = t.take start ++ t.extract start j := by
    rw [← List.append_assoc, take_append_extract hstart, take_append_extract h,
      take_append_extract (Nat.le_trans hstart h)]
  exact List.append_cancel_left hwhole

/-- A piece that ends in no half of a comment mark reads no mark exactly when none begins in it. -/
theorem not_isInfix_commentMark_iff (after : Text) (hlast : code.getLast? ≠ some '-') :
    ¬commentMark <:+: code ↔
      ∀ k, k < code.length → ¬commentMark <+: code.drop k ++ after := by
  constructor
  · rintro hnone k hk ⟨rest, hrest⟩
    rcases hdrop : code.drop k with _ | ⟨c, _ | ⟨d, more⟩⟩
    · exact absurd (List.drop_eq_nil_iff.1 hdrop) (Nat.not_le.2 hk)
    · -- The mark would begin at the last character, which is no half of one.
      rw [hdrop] at hrest
      obtain ⟨rfl, -⟩ := List.cons.inj hrest
      rw [← List.take_append_drop k code, hdrop] at hlast
      exact hlast (List.getLast?_concat)
    · rw [hdrop] at hrest
      simp only [commentMark, List.cons_append, List.nil_append, List.cons.injEq] at hrest
      obtain ⟨rfl, rfl, -⟩ := hrest
      have hmark : commentMark <+: code.drop k := hdrop ▸ List.prefix_append commentMark more
      exact hnone (hmark.isInfix.trans (List.drop_suffix k code).isInfix)
  · rintro hnone ⟨front, back, rfl⟩
    refine hnone front.length ?_ ?_
    · simp only [commentMark, List.length_append, List.length_cons]
      omega
    · rw [List.append_assoc, List.drop_left, List.append_assoc]
      exact List.prefix_append _ _

theorem StandsAt.extract_eq (h : StandsAt ks t start i j) :
    t.extract start j = t.extract start i ++ t.extract i j :=
  (extract_append_extract h.start_le (Nat.le_of_lt h.lt)).symm

/-- From the start of its line to its own start a phrase has no line feed before it. -/
theorem StandsAt.not_mem (h : StandsAt ks t start i j) : '\n' ∉ t.extract start i := fun hlf =>
  h.oneLine (h.extract_eq ▸ List.mem_append_left _ hlf)

/-- Where a phrase stands, the line up to its end ends in the phrase. -/
theorem StandsAt.endsInPhrase (h : StandsAt ks t start i j) :
    EndsInPhrase ks (t.extract start j) where
  phrase := ⟨_, _, h.extract_eq, h.phrase⟩
  oneLine := h.oneLine
  noComment := by
    have hlast : (t.extract start j).getLast? ≠ some '-' := by
      rw [h.extract_eq]
      exact h.phrase.getLast?_append_ne _
    have hj : start ≤ j := Nat.le_trans h.start_le (Nat.le_of_lt h.lt)
    have hlength : (t.extract start j).length = j - start := by
      rw [List.extract_eq_take_drop, List.length_take, List.length_drop]
      have := h.le_length
      omega
    refine (not_isInfix_commentMark_iff (t.drop j) hlast).2 fun k hk => ?_
    have hdrop : t.drop (start + k) = (t.extract start j).drop k ++ t.drop j := by
      rw [← List.drop_drop, ← List.drop_append_of_le_length (Nat.le_of_lt hk),
        List.extract_eq_take_drop]
      conv => lhs; rw [← List.take_append_drop (j - start) (t.drop start), List.drop_drop]
      rw [Nat.add_sub_cancel' hj]
    rw [← hdrop]
    exact h.noComment _ (Nat.le_add_right _ _) (by omega)

/-- Where the line up to some position ends in a phrase, the phrase stands. -/
theorem standsAt_append (hb : LineStarts before) (hlf : '\n' ∉ pre ++ u) (hu : IsPhrase ks u)
    (hmark : ¬commentMark <:+: pre ++ u) :
    StandsAt ks (before ++ (pre ++ u) ++ after) before.length (before ++ pre).length
      ((before ++ pre).length + u.length) where
  start_le := by simp
  lt := by
    obtain ⟨c, v, rfl, -⟩ := hu.exists_cons
    simp
  le_length := by simp; omega
  lineStarts := by
    rw [List.append_assoc, List.take_left]
    exact hb
  oneLine := by
    have hextract := extract_append before (pre ++ u) after
    rw [List.length_append, ← Nat.add_assoc] at hextract
    rw [List.length_append, hextract]
    exact hlf
  phrase := by
    have hextract := extract_append (before ++ pre) u after
    rw [List.append_assoc before pre u] at hextract
    rw [hextract]
    exact hu
  noComment k hk hkj := by
    obtain ⟨k, rfl⟩ := Nat.exists_eq_add_of_le hk
    have hk' : k < (pre ++ u).length := by
      simp only [List.length_append] at hkj ⊢
      omega
    rw [List.append_assoc, List.drop_length_add_append,
      List.drop_append_of_le_length (Nat.le_of_lt hk')]
    exact (not_isInfix_commentMark_iff after (hu.getLast?_append_ne pre)).1 hmark k hk'

/-! ## Lines that replace a table -/

/-- **A line replaces a table exactly when the phrase stands somewhere on it**, behind as many line
feeds as lines come before it. -/
theorem mem_replacementLines_iff_standsAt : n ∈ t.replacementLines ↔
    ∃ start i j, StandsAt replaceTable t start i j ∧ (t.take i).count '\n' + 1 = n := by
  rw [mem_replacementLines_iff]
  constructor
  · rintro ⟨before, _, after, rfl, hb, ⟨⟨pre, u, rfl, hu⟩, hlf, hmark⟩, rfl⟩
    have htake : (before ++ (pre ++ u) ++ after).take (before ++ pre).length = before ++ pre := by
      rw [← List.append_assoc, List.append_assoc, List.take_left]
    refine ⟨before.length, (before ++ pre).length, (before ++ pre).length + u.length, ?_, ?_⟩
    · exact standsAt_append hb hlf hu hmark
    · rw [htake, List.count_append, List.count_eq_zero.2 fun h => hlf (List.mem_append_left u h)]
  · rintro ⟨start, i, j, h, rfl⟩
    refine ⟨t.take start, t.extract start j, t.drop j, ?_, h.lineStarts, h.endsInPhrase, ?_⟩
    · rw [take_append_extract (Nat.le_trans h.start_le (Nat.le_of_lt h.lt)), List.take_append_drop]
    · rw [← take_append_extract h.start_le, List.count_append, List.count_eq_zero.2 h.not_mem]

/-! ## Errors -/

/-- **The errors of a source are those of its offending lines, each once and in order.**  There is
an error for a line exactly when CREATE OR REPLACE TABLE stands on the line before its comment; the
line has as many line feeds before it as its number says, less one.  The errors follow the numbers
of their lines, which ascend, and no error is there twice.  They are all the errors that the report
on the source has, unless the source is blank. -/
theorem lineErrors_exact (t : Text) :
    (∀ n, (Objection.replacedTable n).message ∈ t.lineErrors ↔
      ∃ start i j, StandsAt replaceTable t start i j ∧ (t.take i).count '\n' + 1 = n) ∧
    (∃ ns : List Nat, t.lineErrors = ns.map (fun n => (Objection.replacedTable n).message) ∧
      ns.Pairwise (· < ·)) ∧
    t.lineErrors.Nodup ∧
    ∀ p, (t.validate p).errors = if t.isBlank then ["file is empty"] else t.lineErrors := by
  have horder : t.replacementLines.Pairwise (· < ·) := replacementLines_pairwise t
  refine ⟨fun n => ?_, ⟨_, rfl, horder⟩, ?_, fun p => errors_validate⟩
  · rw [← mem_replacementLines_iff_standsAt, lineErrors, List.mem_map]
    constructor
    · rintro ⟨m, hm, hmessage⟩
      exact Objection.message_replacedTable_inj hmessage ▸ hm
    · intro hn
      exact ⟨n, hn, rfl⟩
  · refine List.pairwise_map.2 (horder.imp fun {m n} hlt hmessage => ?_)
    exact Nat.ne_of_lt hlt (Objection.message_replacedTable_inj hmessage)

end Text

end SqlSanity
