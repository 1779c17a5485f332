import SqlSanity.Text.Upper
import SqlSanity.Sql.Keyword

/-!
# Sql/Block — how many blocks a source opens and closes

A block is opened by the word BEGIN.  An *ending* is the word END, white space, at most one word as
its label, and right after that a `;` or a `/`.  Without a label it closes a block, and with the
label IF, LOOP or CASE it closes a compound statement, which the count cannot tell from a block; any
other label names the unit that ends, and such an ending is not counted.

Endings are collected from the left without overlap, so in `END END;` the second END is the label
of the first.

* `Ending.isCounted` — the endings that count;
* `Text.openings`, `Text.closings` — the two sides of the balance;
* `Text.ending_of_word` — no ending starts inside a word.
-/

namespace SqlSanity

/-- One ending in a source: the word between END and the closing mark, if there is one. -/
structure Ending where
  label : Option Text
  deriving DecidableEq, Repr

namespace Ending

/-- The labels of compound statements, in capitals. -/
def compounds : List Text := [['I', 'F'], ['L', 'O', 'O', 'P'], ['C', 'A', 'S', 'E']]

/-- An ending that counts: it has no label, or the label of a compound statement in any case. -/
def isCounted (e : Ending) : Bool :=
  match e.label with
  | none => true
  | some w => compounds.contains (Text.upper w)

theorem mem_compounds_iff {w : Text} : w ∈ compounds ↔
    w = ['I', 'F'] ∨ w = ['L', 'O', 'O', 'P'] ∨ w = ['C', 'A', 'S', 'E'] := by
  simp [compounds]

/-- An ending without a label counts. -/
@[simp] theorem isCounted_none : isCounted ⟨none⟩ = true := rfl

end Ending

/-- A mark that closes an ending. -/
def isClosingMark (c : Char) : Bool := c == ';' || c == '/'

theorem isClosingMark_iff {c : Char} : isClosingMark c = true ↔ c = ';' ∨ c = '/' := by
  simp [isClosingMark]

namespace Text

/-- What follows the word END in an ending, with its length: white space, a label or none, and a
closing mark right after. -/
def afterEnd? (t : Text) : Option (Ending × Nat) :=
  let gap := t.takeWhile isSpace
  let rest := dropSpace t
  let label := rest.takeWhile isWord
  match rest.dropWhile isWord with
  | [] => none
  | c :: _ =>
    if isClosingMark c then
      some (⟨if label.isEmpty then none else some label⟩, gap.length + label.length + 1)
    else none

/-- An ending at this place. -/
def ending : Pattern Ending := fun afterWord t =>
  match Keyword.blockEnd.find afterWord t with
  | none => none
  | some (_, n) => (afterEnd? (t.drop n)).map fun e => (e.1, n + e.2)

/-- The endings of a source, left to right without overlap. -/
def endings (t : Text) : List Ending := occurrences ending t

/-- The number of blocks that a source opens. -/
def openings (t : Text) : Nat := Keyword.blockBegin.count t

/-- The number of endings of a source that count. -/
def closings (t : Text) : Nat := (endings t).countP Ending.isCounted

/-- No ending starts inside a word. -/
theorem ending_of_word (t : Text) : ending true t = none := rfl

end Text

end SqlSanity
