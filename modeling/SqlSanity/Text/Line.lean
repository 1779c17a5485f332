import SqlSanity.Text.Basic

/-!
# Text/Line — physical lines, and the part before a line comment

A line ends at a line feed and nowhere else: a lone carriage return, a form feed or U+2028 stands
inside a line.  A carriage return just before the line feed stays at the end of its line, where it
is white space like any other.

* `Text.lines_ne_nil` — a text has a line;
* `Text.not_mem_of_mem_lines` — a line holds no line feed.
-/

namespace SqlSanity.Text

/-- The lines of a text, cut at each line feed. -/
def lines : Text → List Text
  | [] => [[]]
  | c :: t =>
    if c == '\n' then [] :: lines t
    else match lines t with
      | [] => [[c]]
      | l :: ls => (c :: l) :: ls

/-- The part of a line before its first `--`, the whole line if it has none. -/
def beforeComment : Text → Text
  | [] => []
  | c :: t =>
    if c == '-' && t.head? == some '-' then [] else c :: beforeComment t

/-- A text has a line, even the empty one. -/
theorem lines_ne_nil : ∀ t : Text, lines t ≠ []
  | [] => by simp [lines]
  | c :: t => by
    rw [lines]
    split
    · simp
    · split <;> simp

@[simp] theorem lines_lf (t : Text) : lines ('\n' :: t) = [] :: lines t := by simp [lines]

/-- **A line holds no line feed.** -/
theorem not_mem_of_mem_lines {l : Text} : ∀ {t : Text}, l ∈ lines t → '\n' ∉ l
  | [], h => by simp [lines] at h; simp [h]
  | c :: t, h => by
    have ih := fun (m : Text) (hm : m ∈ lines t) => not_mem_of_mem_lines hm
    rw [lines] at h
    split at h
    · grind
    · split at h <;> grind

/-- What comes before the comment is a piece of the line. -/
theorem beforeComment_isPrefix : ∀ t : Text, ∃ u, beforeComment t ++ u = t
  | [] => ⟨[], rfl⟩
  | c :: t => by
    rw [beforeComment]
    split
    · exact ⟨_, rfl⟩
    · obtain ⟨u, hu⟩ := beforeComment_isPrefix t
      exact ⟨u, by rw [List.cons_append, hu]⟩

end SqlSanity.Text
