import SqlSanity.Proofs.Text.Space
import SqlSanity.Text.Upper

/-!
# Proofs/Text/Case — the case of ASCII letters

`Char.toLower` changes the 26 capital ASCII letters and nothing else, so what agrees on these and
their small forms depends on no letter case.  Both ways in which a source is read up to case do,
the folding of keywords and the full capitals of labels, although they go on to disagree above
ASCII.

* `Text.apply_toLower` — what depends on no letter case, letter by letter;
* `Text.foldChar_of_toLower`, `Text.upper_of_toLower` — folding and capitals depend on none;
* `Text.map_foldChar_eq_iff` — the keywords that are read in ASCII letters only.
-/

namespace SqlSanity.Text

variable {β : Type} {c d : Char} {s t : Text}

/-- The capital ASCII letters, one by one. -/
def capitals : List Char :=
  ['A', 'B', 'C', 'D', 'E', 'F', 'G', 'H', 'I', 'J', 'K', 'L', 'M', 'N', 'O', 'P', 'Q', 'R', 'S',
    'T', 'U', 'V', 'W', 'X', 'Y', 'Z']

/-- Only a capital ASCII letter has another small form. -/
theorem mem_capitals (h : c.toLower ≠ c) : c ∈ capitals := by
  have codes : capitals.map Char.toNat = List.range' 65 26 := by decide
  delta Char.toLower at h
  split at h
  · next hc =>
    have hlow : 65 ≤ c.toNat := UInt32.le_iff_toNat_le.1 hc.1
    have hhigh : c.toNat ≤ 90 := UInt32.le_iff_toNat_le.1 hc.2
    have hmem : c.toNat ∈ capitals.map Char.toNat := by
      rw [codes, List.mem_range'_1]
      omega
    obtain ⟨d, hd, hdc⟩ := List.mem_map.1 hmem
    exact Char.toNat_inj.1 hdc ▸ hd
  · exact absurd rfl h

/-- **What agrees on each capital letter and its small form depends on no letter case.** -/
theorem apply_toLower (q : Char → β) (h : capitals.map (fun a => q a.toLower) = capitals.map q)
    (c : Char) : q c.toLower = q c := by
  by_cases hc : c.toLower = c
  · rw [hc]
  · exact List.map_inj_left.1 h c (mem_capitals hc)

theorem apply_of_toLower (q : Char → β) (h : capitals.map (fun a => q a.toLower) = capitals.map q)
    (hcd : c.toLower = d.toLower) : q c = q d := by
  rw [← apply_toLower q h c, hcd, apply_toLower q h d]

theorem isSpace_of_toLower (h : c.toLower = d.toLower) : isSpace c = isSpace d :=
  apply_of_toLower isSpace (by decide) h

theorem isBlankChar_of_toLower (h : c.toLower = d.toLower) : isBlankChar c = isBlankChar d :=
  apply_of_toLower isBlankChar (by decide) h

theorem isWord_of_toLower (h : c.toLower = d.toLower) : isWord c = isWord d :=
  apply_of_toLower isWord (by decide) h

/-- A character that is no letter is known up to case. -/
theorem eq_of_toLower (hc : capitals.map (fun a => a.toLower == c) = capitals.map (· == c))
    (h : c.toLower = d.toLower) : d = c := by
  have heq : (c == c) = (d == c) := apply_of_toLower (· == c) hc h
  rw [beq_self_eq_true] at heq
  exact beq_iff_eq.1 heq.symm

/-! ## Texts -/

/-- What is made of a text letter by letter depends on no letter case when that of a letter does. -/
theorem map_of_toLower (q : Char → β) (hq : capitals.map (fun a => q a.toLower) = capitals.map q)
    (h : s.map Char.toLower = t.map Char.toLower) : s.map q = t.map q := by
  have hmap (u : Text) : u.map q = (u.map Char.toLower).map q := by
    rw [List.map_map]
    exact List.map_congr_left fun c _ => (apply_toLower q hq c).symm
  rw [hmap s, hmap t, h]

/-- **Keywords are read in either case.** -/
theorem foldChar_of_toLower (h : s.map Char.toLower = t.map Char.toLower) :
    s.map foldChar = t.map foldChar :=
  map_of_toLower foldChar (by decide) h

/-- **A text has the capitals of its small letters.** -/
theorem upper_of_toLower (h : s.map Char.toLower = t.map Char.toLower) : upper s = upper t := by
  rw [upper, upper, List.flatMap_def, List.flatMap_def, map_of_toLower upperChar (by decide) h]

/-- Other letters than k and s have no spelling outside ASCII. -/
theorem foldChar_eq_iff {a : Char} (ha : a.toNat < 0x80) (hk : a ≠ 'k') (hs : a ≠ 's') :
    foldChar c = a ↔ c.toLower = a := by
  have hnot {d : Char} (hd : d.toLower = d) (hle : 0x80 ≤ d.toNat) : d.toLower ≠ a := by
    rintro rfl
    rw [hd] at ha
    omega
  rw [foldChar]
  split
  · next hc =>
    obtain rfl : c = '\u212a' := Char.toNat_inj.1 (by simpa using hc)
    exact iff_of_false hk.symm (hnot (by decide) (by decide))
  · split
    · next hc =>
      obtain rfl : c = '\u017f' := Char.toNat_inj.1 (by simpa using hc)
      exact iff_of_false hs.symm (hnot (by decide) (by decide))
    · exact Iff.rfl

/-- Two ways to read characters agree on a text when they agree on its letters. -/
theorem map_eq_iff {p q : Char → Char} {letters : List Char}
    (h : ∀ a ∈ letters, ∀ c, p c = a ↔ q c = a) : t.map p = letters ↔ t.map q = letters := by
  induction t generalizing letters with
  | nil => rfl
  | cons c t ih =>
    cases letters with
    | nil => simp
    | cons a letters =>
      have htail := ih fun d hd => h d (List.mem_cons_of_mem a hd)
      rw [List.map_cons, List.map_cons, List.cons.injEq, List.cons.injEq]
      exact and_congr (h a List.mem_cons_self c) htail

/-- Without k and s among its letters a keyword is read in ASCII letters only. -/
theorem map_foldChar_eq_iff {letters : List Char}
    (h : ∀ a ∈ letters, a.toNat < 0x80 ∧ a ≠ 'k' ∧ a ≠ 's') :
    t.map foldChar = letters ↔ t.map Char.toLower = letters :=
  map_eq_iff fun a ha _ => foldChar_eq_iff (h a ha).1 (h a ha).2.1 (h a ha).2.2

end SqlSanity.Text
