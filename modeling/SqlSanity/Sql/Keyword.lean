import SqlSanity.Text.Fold
import SqlSanity.Text.Occurrence

/-!
# Sql/Keyword — the keywords the checks look for

A keyword is found in either case, and only as a whole word: no word character may touch it on
either side.  A source *names an object* when one of the `objectKeywords` stands in it.

* `Keyword.find_eq_some_iff` — where a keyword is found, and how long the match is.
-/

namespace SqlSanity

/-- The keywords that a check mentions. -/
inductive Keyword
  | create | or | replace | table
  | procedure | function | package | trigger
  | blockBegin | blockEnd
  deriving DecidableEq, Repr

namespace Keyword

/-- The letters of a keyword, small. -/
def letters : Keyword → List Char
  | create => ['c', 'r', 'e', 'a', 't', 'e']
  | or => ['o', 'r']
  | replace => ['r', 'e', 'p', 'l', 'a', 'c', 'e']
  | table => ['t', 'a', 'b', 'l', 'e']
  | procedure => ['p', 'r', 'o', 'c', 'e', 'd', 'u', 'r', 'e']
  | function => ['f', 'u', 'n', 'c', 't', 'i', 'o', 'n']
  | package => ['p', 'a', 'c', 'k', 'a', 'g', 'e']
  | trigger => ['t', 'r', 'i', 'g', 'g', 'e', 'r']
  | blockBegin => ['b', 'e', 'g', 'i', 'n']
  | blockEnd => ['e', 'n', 'd']

/-- The text after the keyword, which it must start with in either case. -/
def strip? (k : Keyword) (t : Text) : Option Text := Text.strip? k.letters t

/-- The keyword as a whole word: nothing of a word before it and nothing after it. -/
def find (k : Keyword) : Text.Pattern Unit := fun afterWord t =>
  if afterWord then none
  else match k.strip? t with
    | none => none
    | some r => if Text.startsWord r then none else some ((), k.letters.length)

/-- The keyword stands in the text as a whole word. -/
def standsIn (k : Keyword) (t : Text) : Bool := Text.contains k.find t

/-- How often the keyword stands in the text as a whole word. -/
def count (k : Keyword) (t : Text) : Nat := (Text.occurrences k.find t).length

/-- The keywords that SQL and PL/SQL objects are written with. -/
def objectKeywords : List Keyword :=
  [create, replace, procedure, function, package, trigger, blockBegin, blockEnd]

/-- **A keyword is found where its letters start a word and end it.** -/
theorem find_eq_some_iff {k : Keyword} {b : Bool} {t : Text} {n : Nat} :
    k.find b t = some ((), n) ↔ b = false ∧ n = k.letters.length ∧
      ∃ r, k.strip? t = some r ∧ Text.startsWord r = false := by
  rw [find]
  cases b with
  | true => simp
  | false =>
    cases h : k.strip? t with
    | none => simp
    | some r =>
      cases hr : Text.startsWord r with
      | true => simp [hr]
      | false => simpa [hr] using eq_comm

end Keyword

/-- A source names an object: one of the object keywords stands in it. -/
def Text.namesObject (t : Text) : Bool := Keyword.objectKeywords.any fun k => k.standsIn t

end SqlSanity
