import SqlSanity.Text.Fold
import SqlSanity.Text.Word

/-!
# Proofs/Text/Space — white space belongs to no word and spells no keyword

White space is 25 characters, and what holds of each of them holds of white space.  None is a word
character, so white space is a word border on both of its sides.  None folds to a letter, so a
keyword neither starts nor ends with white space.  A blank text has these characters and four
separators in it, and nothing else.

* `Text.isBlank_iff` — a blank text, by its characters;
* `Text.isWord_of_isSpace` — white space is no word character;
* `Text.isSpace_of_letter` — what folds to a letter is no white space;
* `Text.isWord_of_letter` — what folds to a letter is a word character.
-/

namespace SqlSanity.Text

/-- The white space characters, one by one. -/
def spaces : List Char :=
  ['\x09', '\x0a', '\x0b', '\x0c', '\x0d', '\x20', '\u0085', '\u00a0', '\u1680', '\u2000', '\u2001',
    '\u2002', '\u2003', '\u2004', '\u2005', '\u2006', '\u2007', '\u2008', '\u2009', '\u200a',
    '\u2028', '\u2029', '\u202f', '\u205f', '\u3000']

/-- The file, group, record and unit separators. -/
def separators : List Char := ['\x1c', '\x1d', '\x1e', '\x1f']

/-- A character is known by its code point. -/
theorem mem_of_toNat_mem {c : Char} {cs : List Char} (h : c.toNat ∈ cs.map Char.toNat) :
    c ∈ cs := by
  obtain ⟨d, hd, hdc⟩ := List.mem_map.1 h
  exact Char.toNat_inj.1 hdc ▸ hd

/-- The code points of white space are those of `spaces`. -/
theorem toNat_mem_spaces {c : Char} (h : isSpace c = true) : c.toNat ∈ spaces.map Char.toNat := by
  have codes : spaces.map Char.toNat = [0x9, 0xa, 0xb, 0xc, 0xd, 0x20, 0x85, 0xa0, 0x1680, 0x2000,
      0x2001, 0x2002, 0x2003, 0x2004, 0x2005, 0x2006, 0x2007, 0x2008, 0x2009, 0x200a, 0x2028,
      0x2029, 0x202f, 0x205f, 0x3000] := by decide
  simp only [isSpace, Bool.or_eq_true, Bool.and_eq_true, decide_eq_true_eq, beq_iff_eq] at h
  rw [codes]
  simp only [List.mem_cons, List.not_mem_nil, or_false]
  omega

/-- The code points from U+001C to U+001F are those of `separators`. -/
theorem toNat_mem_separators {n : Nat} (h : 0x1c ≤ n ∧ n ≤ 0x1f) :
    n ∈ separators.map Char.toNat := by
  have codes : separators.map Char.toNat = [0x1c, 0x1d, 0x1e, 0x1f] := by decide
  rw [codes]
  simp only [List.mem_cons, List.not_mem_nil, or_false]
  omega

/-- **White space is the 25 characters.** -/
theorem isSpace_iff {c : Char} : isSpace c = true ↔ c ∈ spaces := by
  have all : spaces.all isSpace = true := by decide
  exact ⟨fun h => mem_of_toNat_mem (toNat_mem_spaces h), List.all_eq_true.1 all c⟩

/-- What leaves a file empty is white space and the separators. -/
theorem isBlankChar_iff {c : Char} : isBlankChar c = true ↔ c ∈ spaces ∨ c ∈ separators := by
  have all : separators.all (fun d => 0x1c ≤ d.toNat && d.toNat ≤ 0x1f) = true := by decide
  have hseparator : (0x1c ≤ c.toNat && c.toNat ≤ 0x1f) = true ↔ c ∈ separators := by
    refine ⟨fun h => mem_of_toNat_mem (toNat_mem_separators ?_), List.all_eq_true.1 all c⟩
    simpa using h
  rw [isBlankChar, Bool.or_eq_true, isSpace_iff, hseparator]

/-- A text with nothing in it but white space and separators. -/
def OnlyBlanks (t : Text) : Prop := ∀ c ∈ t, c ∈ spaces ∨ c ∈ separators

/-- **A text is blank by its characters.** -/
theorem isBlank_iff {t : Text} : t.isBlank = true ↔ t.OnlyBlanks := by
  rw [isBlank, List.all_eq_true]
  exact forall₂_congr fun _ _ => isBlankChar_iff

theorem isBlank_eq_false_iff {t : Text} : t.isBlank = false ↔ ¬t.OnlyBlanks := by
  rw [← isBlank_iff, Bool.not_eq_true]

/-- **White space is no word character.** -/
theorem isWord_of_isSpace {c : Char} (h : isSpace c = true) : isWord c = false := by
  have all : spaces.all (fun d => !isWord d) = true := by decide +kernel
  simpa using List.all_eq_true.1 all c (isSpace_iff.1 h)

/-- A small ASCII letter. -/
def isLetter (a : Char) : Bool := 0x61 ≤ a.toNat && a.toNat ≤ 0x7a

/-- **What folds to a letter is no white space.** -/
theorem isSpace_of_letter {c : Char} (h : isLetter (foldChar c) = true) : isSpace c = false := by
  have all : spaces.all (fun d => !isLetter (foldChar d)) = true := by decide +kernel
  refine Bool.eq_false_iff.2 fun hc => ?_
  have hnot : isLetter (foldChar c) = false := by
    simpa using List.all_eq_true.1 all c (isSpace_iff.1 hc)
  exact Bool.false_ne_true (hnot.symm.trans h)

/-- What a letter is the small form of is an ASCII letter. -/
theorem isAsciiWord_of_isLetter_toLower {c : Char} (h : isLetter c.toLower = true) :
    c.toNat < 0x80 ∧ isAsciiWord c.toNat = true := by
  simp only [isLetter, Bool.and_eq_true, decide_eq_true_eq] at h
  simp only [isAsciiWord, Bool.or_eq_true, Bool.and_eq_true, decide_eq_true_eq, beq_iff_eq]
  delta Char.toLower at h
  split at h
  · next hc =>
    have hlow : 65 ≤ c.toNat := UInt32.le_iff_toNat_le.1 hc.1
    have hhigh : c.toNat ≤ 90 := UInt32.le_iff_toNat_le.1 hc.2
    omega
  · omega

/-- **What folds to a letter is a word character.** -/
theorem isWord_of_letter {c : Char} (h : isLetter (foldChar c) = true) : isWord c = true := by
  rw [foldChar] at h
  split at h
  · next hc =>
    obtain rfl : c = '\u212a' := Char.toNat_inj.1 (by simpa using hc)
    decide +kernel
  · split at h
    · next hc =>
      obtain rfl : c = '\u017f' := Char.toNat_inj.1 (by simpa using hc)
      decide +kernel
    · obtain ⟨hlt, hascii⟩ := isAsciiWord_of_isLetter_toLower h
      simp [isWord, hlt, hascii]

/-- No word character is white space. -/
theorem isSpace_of_isWord {c : Char} (h : isWord c = true) : isSpace c = false :=
  Bool.eq_false_iff.2 fun hc => Bool.false_ne_true ((isWord_of_isSpace hc).symm.trans h)

/-- No blank character is a word character either. -/
theorem isWord_of_isBlankChar {c : Char} (h : isBlankChar c = true) : isWord c = false := by
  rw [isBlankChar, Bool.or_eq_true] at h
  rcases h with h | h
  · exact isWord_of_isSpace h
  · simp only [Bool.and_eq_true, decide_eq_true_eq] at h
    have hascii : isAsciiWord c.toNat = false := by
      simp only [isAsciiWord, Bool.or_eq_false_iff, Bool.and_eq_false_iff, decide_eq_false_iff_not,
        beq_eq_false_iff_ne]
      omega
    have hlt : c.toNat < 0x80 := by omega
    simp [isWord, hlt, hascii]

end SqlSanity.Text
