/-!
# Text/Basic — a text is its characters, and what counts as space

Every rule on SQL text reads it one character at a time, so a text is the list of its characters.
White space is the Unicode property White_Space; a *blank* character may also be one of the four
ASCII separators U+001C to U+001F, which count when a whole file is asked to be empty and nowhere
else.

* `Text.isBlank_of_isSpace` — white space is blank;
* `Text.dropSpace_eq_self` — a text that starts with no white space loses none.
-/

namespace SqlSanity

/-- The characters of a source, in order. -/
abbrev Text := List Char

namespace Text

/-- White space: the 25 characters with the Unicode property White_Space. -/
def isSpace (c : Char) : Bool :=
  let n := c.toNat
  (0x9 ≤ n && n ≤ 0xd) || n == 0x20 || n == 0x85 || n == 0xa0 || n == 0x1680
    || (0x2000 ≤ n && n ≤ 0x200a) || n == 0x2028 || n == 0x2029 || n == 0x202f || n == 0x205f
    || n == 0x3000

/-- A character that leaves a file empty: white space, or a file, group, record or unit
separator. -/
def isBlankChar (c : Char) : Bool :=
  isSpace c || (0x1c ≤ c.toNat && c.toNat ≤ 0x1f)

/-- A text is blank when it holds blank characters only. -/
def isBlank (t : Text) : Bool := t.all isBlankChar

/-- The text after its leading white space. -/
def dropSpace (t : Text) : Text := t.dropWhile isSpace

/-- The text after a non-empty run of white space, which it must start with. -/
def dropGap? : Text → Option Text
  | [] => none
  | c :: t => if isSpace c then some (dropSpace t) else none

theorem isBlankChar_of_isSpace {c : Char} (h : isSpace c = true) : isBlankChar c = true := by
  simp [isBlankChar, h]

/-- White space is blank. -/
theorem isBlank_of_isSpace {t : Text} (h : ∀ c ∈ t, isSpace c = true) : t.isBlank = true :=
  List.all_eq_true.2 fun c hc => isBlankChar_of_isSpace (h c hc)

/-- A text that starts with no white space loses none. -/
theorem dropSpace_eq_self {c : Char} {t : Text} (h : isSpace c = false) :
    dropSpace (c :: t) = c :: t := by
  simp [dropSpace, h]

/-- A gap is one white space character and whatever white space follows it. -/
theorem dropGap?_eq_some_iff {t r : Text} :
    t.dropGap? = some r ↔ ∃ c u, t = c :: u ∧ isSpace c = true ∧ r = dropSpace u := by
  cases t with
  | nil => simp [dropGap?]
  | cons c u =>
    constructor
    · intro h
      rw [dropGap?] at h
      split at h
      · next hc => exact ⟨c, u, rfl, hc, (Option.some.inj h).symm⟩
      · cases h
    · rintro ⟨_, _, ⟨⟩, hc, rfl⟩
      simp [dropGap?, hc]

end Text

end SqlSanity
