import SqlSanity.Text.Word

/-!
# Text/Occurrence — the matches of a pattern, left to right without overlap

A pattern is asked at one place of a text: whether a word character stands just before, and the
text from there on.  Its matches are collected from the left; after a match the search goes on where
the match ends, so a character belongs to one match at most.

* `Text.occurrences_cons_of_none`, `Text.occurrences_cons_of_some` — one step of the search.
-/

namespace SqlSanity.Text

/-- What a pattern finds at a place: a value and the length of the match, at least one character. -/
abbrev Pattern (α : Type) := (afterWord : Bool) → Text → Option (α × Nat)

/-- The matches of `p` from a place on, after `skip` more characters that the last match holds. -/
def occurrencesFrom {α : Type} (p : Pattern α) : (skip : Nat) → (afterWord : Bool) → Text → List α
  | _, _, [] => []
  | skip + 1, _, c :: t => occurrencesFrom p skip (isWord c) t
  | 0, afterWord, c :: t =>
    match p afterWord (c :: t) with
    | some (a, n) => a :: occurrencesFrom p (n - 1) (isWord c) t
    | none => occurrencesFrom p 0 (isWord c) t

/-- The matches of `p` in a text: the leftmost first, each starting no earlier than the one before
it ends. -/
def occurrences {α : Type} (p : Pattern α) (t : Text) : List α := occurrencesFrom p 0 false t

/-- `p` matches somewhere in the text. -/
def contains {α : Type} (p : Pattern α) (t : Text) : Bool := !(occurrences p t).isEmpty

variable {α : Type} {p : Pattern α}

@[simp] theorem occurrencesFrom_nil (skip : Nat) (b : Bool) : occurrencesFrom p skip b [] = [] := by
  cases skip <;> rfl

/-- Where the pattern does not match, the search moves on by one character. -/
theorem occurrences_cons_of_none {b : Bool} {c : Char} {t : Text} (h : p b (c :: t) = none) :
    occurrencesFrom p 0 b (c :: t) = occurrencesFrom p 0 (isWord c) t := by
  rw [occurrencesFrom, h]

/-- Where the pattern matches, the search moves on to the end of the match. -/
theorem occurrences_cons_of_some {b : Bool} {c : Char} {t : Text} {a : α} {n : Nat}
    (h : p b (c :: t) = some (a, n)) :
    occurrencesFrom p 0 b (c :: t) = a :: occurrencesFrom p (n - 1) (isWord c) t := by
  rw [occurrencesFrom, h]

end SqlSanity.Text
