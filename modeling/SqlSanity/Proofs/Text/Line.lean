import SqlSanity.Text.Line

/-!
# Proofs/Text/Line — lines and comments as places in the text

`lines` cuts a text up and `beforeComment` cuts each piece short, and both forget where in the text
a piece was.  Here each is read as a statement about places: a line stands between two line feeds or
ends of the text and has as many line feeds before it as its number says, and the part of it before
the comment is as far as one can go without reading `--`.

* `Text.getElem?_lines_eq_some_iff` — the line of a number, as a place in the text;
* `Text.isPrefix_beforeComment_iff` — what lies before the comment of a line;
* `Text.lines_append_lf` — a line feed parts the lines before it from those after it.
-/

namespace SqlSanity.Text

/-! ## Lines -/

/-- A line starts after `before`. -/
def LineStarts (before : Text) : Prop := ∀ c ∈ before.getLast?, c = '\n'

/-- A line ends before `after`. -/
def LineEnds (after : Text) : Prop := ∀ c ∈ after.head?, c = '\n'

theorem lineStarts_nil : LineStarts [] := by simp [LineStarts]

/-- A line starts after a line feed, and where it would without the character in front. -/
theorem lineStarts_cons {c : Char} {t : Text} :
    LineStarts (c :: t) ↔ if t = [] then c = '\n' else LineStarts t := by
  cases t with
  | nil => simp [LineStarts]
  | cons d t => simp [LineStarts, List.getLast?_cons_cons]

/-- Where a line starts after anything at all, a line feed has come before. -/
theorem LineStarts.count_pos {t : Text} (h : LineStarts t) (hne : t ≠ []) : 0 < t.count '\n' := by
  have hlast : t.getLast hne = '\n' := h _ (List.getLast?_eq_some_getLast hne)
  exact List.count_pos_iff.2 (hlast ▸ List.getLast_mem hne)

/-- Every place in a text is on a line. -/
theorem exists_lineStarts : ∀ t : Text, ∃ before rest, t = before ++ rest ∧ LineStarts before ∧
    '\n' ∉ rest
  | [] => ⟨[], [], rfl, lineStarts_nil, List.not_mem_nil⟩
  | c :: t => by
    obtain ⟨before, rest, rfl, hb, hrest⟩ := exists_lineStarts t
    by_cases hstart : LineStarts (c :: before)
    · exact ⟨c :: before, rest, rfl, hstart, hrest⟩
    · -- The line goes on from before `c`, which is no line feed.
      rw [lineStarts_cons] at hstart
      split at hstart
      · next hnil =>
        subst hnil
        refine ⟨[], c :: rest, rfl, lineStarts_nil, fun h => ?_⟩
        rcases List.mem_cons.1 h with h | h
        · exact hstart h.symm
        · exact hrest h
      · exact absurd hb hstart

theorem lines_cons {c : Char} {t l : Text} {ls : List Text} (hc : c ≠ '\n')
    (h : lines t = l :: ls) : lines (c :: t) = (c :: l) :: ls := by
  rw [lines, if_neg (by simpa using hc), h]

/-- A line feed parts the lines before it from those after it. -/
theorem lines_append_lf : ∀ s t : Text, lines (s ++ '\n' :: t) = lines s ++ lines t
  | [], t => lines_lf t
  | c :: s, t => by
    have ih := lines_append_lf s t
    by_cases hc : c = '\n'
    · rw [hc, List.cons_append, lines_lf, lines_lf, ih, List.cons_append]
    · obtain ⟨l, ls, hs⟩ := List.exists_cons_of_ne_nil (lines_ne_nil s)
      rw [List.cons_append, lines_cons hc (ih.trans (by rw [hs, List.cons_append])),
        lines_cons hc hs, List.cons_append]

/-- A text without line feeds is one line. -/
theorem lines_of_not_mem : ∀ {t : Text}, '\n' ∉ t → lines t = [t]
  | [], _ => rfl
  | c :: t, h => by
    have hc : c ≠ '\n' := fun hc => h (hc ▸ List.mem_cons_self)
    exact lines_cons hc (lines_of_not_mem fun ht => h (List.mem_cons_of_mem _ ht))

/-- The line of a number stands in the text behind as many line feeds. -/
theorem exists_of_getElem?_lines : ∀ {t l : Text} {i : Nat}, (lines t)[i]? = some l →
    ∃ before after, t = before ++ l ++ after ∧ LineStarts before ∧ LineEnds after ∧
      before.count '\n' = i
  | [], l, i, h => by
    obtain ⟨rfl, rfl⟩ : i = 0 ∧ l = [] := by cases i <;> simp_all [lines]
    exact ⟨[], [], rfl, lineStarts_nil, by simp [LineEnds], rfl⟩
  | c :: t, l, i, h => by
    have ih := fun i l h => @exists_of_getElem?_lines t l i h
    by_cases hc : c = '\n'
    · rw [hc, lines_lf] at h
      cases i with
      | zero =>
        obtain rfl : [] = l := by simpa using h
        exact ⟨[], c :: t, rfl, lineStarts_nil, by simp [LineEnds, hc], rfl⟩
      | succ i =>
        obtain ⟨before, after, rfl, hb, ha, hi⟩ := ih i l h
        refine ⟨c :: before, after, rfl, lineStarts_cons.2 ?_, ha, by simp [hc, hi]⟩
        split
        · exact hc
        · exact hb
    · obtain ⟨l₀, ls, hls⟩ := List.exists_cons_of_ne_nil (lines_ne_nil t)
      rw [lines_cons hc hls] at h
      cases i with
      | zero =>
        obtain rfl : c :: l₀ = l := by simpa using h
        obtain ⟨before, after, rfl, hb, ha, h0⟩ := ih 0 l₀ (by rw [hls]; rfl)
        obtain rfl : before = [] := Classical.byContradiction fun hne => by
          have := hb.count_pos hne
          omega
        exact ⟨[], after, rfl, lineStarts_nil, ha, rfl⟩
      | succ i =>
        obtain ⟨before, after, rfl, hb, ha, hi⟩ := ih (i + 1) l (by rw [hls]; exact h)
        have hne : before ≠ [] := fun h0 => by rw [h0] at hi; simp at hi
        refine ⟨c :: before, after, rfl, lineStarts_cons.2 ?_, ha, by simp [hc, hi]⟩
        rw [if_neg hne]
        exact hb

/-- What stands between two line feeds or ends of the text is a line, with the number of line feeds
before it for its number. -/
theorem getElem?_lines_append {l after : Text} (hl : '\n' ∉ l) (ha : LineEnds after) :
    ∀ {before : Text}, LineStarts before →
      (lines (before ++ l ++ after))[before.count '\n']? = some l
  | [], _ => by
    cases after with
    | nil => simp [lines_of_not_mem hl]
    | cons d after =>
      obtain rfl : d = '\n' := ha d rfl
      simp [lines_append_lf, lines_of_not_mem hl]
  | c :: before, hb => by
    have hb' := lineStarts_cons.1 hb
    by_cases hc : c = '\n'
    · have hb'' : LineStarts before := by
        split at hb'
        · next h0 => exact h0 ▸ lineStarts_nil
        · exact hb'
      simpa [hc] using getElem?_lines_append hl ha hb''
    · obtain ⟨hne, hb''⟩ : before ≠ [] ∧ LineStarts before := by
        split at hb'
        · exact absurd hb' hc
        · next hne => exact ⟨hne, hb'⟩
      have ih := getElem?_lines_append hl ha hb''
      obtain ⟨k, hk⟩ := Nat.exists_eq_succ_of_ne_zero (Nat.ne_of_gt (hb''.count_pos hne))
      obtain ⟨l₀, ls, hls⟩ := List.exists_cons_of_ne_nil (lines_ne_nil (before ++ l ++ after))
      rw [hls, hk] at ih
      have hcount : (c :: before).count '\n' = k + 1 := by simp [hc, hk]
      rw [hcount, List.cons_append, List.cons_append, lines_cons hc hls]
      exact ih

/-- **The line of a number is what stands, behind as many line feeds, between two line feeds or ends
of the text.** -/
theorem getElem?_lines_eq_some_iff {t l : Text} {i : Nat} :
    (lines t)[i]? = some l ↔
      '\n' ∉ l ∧ ∃ before after, t = before ++ l ++ after ∧ LineStarts before ∧ LineEnds after ∧
        before.count '\n' = i := by
  constructor
  · intro h
    exact ⟨not_mem_of_mem_lines (List.mem_of_getElem? h), exists_of_getElem?_lines h⟩
  · rintro ⟨hl, before, after, rfl, hb, ha, rfl⟩
    exact getElem?_lines_append hl ha hb

/-! ## Comments -/

/-- The two characters that start a line comment. -/
def commentMark : Text := ['-', '-']

theorem beforeComment_cons {c : Char} {t : Text} (h : ¬commentMark <+: c :: t) :
    beforeComment (c :: t) = c :: beforeComment t := by
  rw [beforeComment, if_neg]
  intro hm
  obtain ⟨rfl, hd⟩ : c = '-' ∧ t.head? = some '-' := by simpa using hm
  obtain ⟨u, rfl⟩ : ∃ u, t = '-' :: u := by cases t <;> simp_all
  exact h ⟨u, rfl⟩

/-- What comes before the comment reads no comment mark. -/
theorem not_isInfix_beforeComment : ∀ t : Text, ¬commentMark <:+: beforeComment t
  | [] => by simp [beforeComment, commentMark]
  | c :: t => by
    have ih := not_isInfix_beforeComment t
    rw [beforeComment]
    split
    · simp [commentMark]
    · next hc =>
      rw [List.infix_cons_iff]
      rintro (⟨u, hu⟩ | h)
      · obtain ⟨hd, ht⟩ := List.cons.inj hu
        refine hc ?_
        obtain ⟨v, hv⟩ := beforeComment_isPrefix t
        rw [← ht] at hv
        rw [← hv, ← hd]
        rfl
      · exact ih h

/-- A piece from the start of a line is before the comment exactly when it reads no comment mark;
the piece must not end in half a mark. -/
theorem isPrefix_beforeComment_iff {code : Text} (hlast : code.getLast? ≠ some '-') :
    ∀ {line : Text}, code <+: beforeComment line ↔ code <+: line ∧ ¬commentMark <:+: code := by
  intro line
  constructor
  · intro h
    exact ⟨h.trans (beforeComment_isPrefix line),
      fun hm => not_isInfix_beforeComment line (hm.trans h.isInfix)⟩
  · rintro ⟨⟨after, rfl⟩, hm⟩
    induction code with
    | nil => exact List.nil_prefix
    | cons c code ih =>
      have hmark : ¬commentMark <+: c :: (code ++ after) := by
        cases code with
        | nil =>
          -- Half a mark at the very end is what the hypothesis on the last character excludes.
          rintro ⟨u, hu⟩
          obtain ⟨rfl, -⟩ := List.cons.inj hu
          exact hlast rfl
        | cons d code =>
          rintro ⟨u, hu⟩
          simp only [commentMark, List.cons_append, List.nil_append, List.cons.injEq] at hu
          obtain ⟨rfl, rfl, -⟩ := hu
          exact hm (List.prefix_append commentMark code).isInfix
      have hlast' : code.getLast? ≠ some '-' := fun h => hlast (by
        cases code with
        | nil => cases h
        | cons d code => rwa [List.getLast?_cons_cons])
      rw [List.cons_append, beforeComment_cons hmark, List.cons_prefix_cons]
      exact ⟨rfl, ih hlast' fun h => hm (List.infix_cons h)⟩

end SqlSanity.Text
