import SqlSanity.Text.Basic
import SqlSanity.Text.WordRanges

/-!
# Text/Word — word characters, and the words of a text

A *word* is a maximal run of word characters: letters, marks, decimal digits, connector punctuation
and the two joiners, in the sense of Unicode.  So `é`, a combining accent, `٣`, `Ⅳ` and `_` continue
a word; `$`, `#`, `²` and every white space character end it.

* `Text.startsWord` — does a text go on with a word character;
* `Text.words` — the words of a text, in order.
-/

namespace SqlSanity.Text

/-- The ASCII word characters: letters, digits and the underscore. -/
def isAsciiWord (n : Nat) : Bool :=
  (0x61 ≤ n && n ≤ 0x7a) || (0x41 ≤ n && n ≤ 0x5a) || (0x30 ≤ n && n ≤ 0x39) || n == 0x5f

/-- A word character: ASCII letters, digits and underscore, or a character of `wordRanges`. -/
def isWord (c : Char) : Bool :=
  let n := c.toNat
  if n < 0x80 then isAsciiWord n else wordRanges.any fun r => r.1 ≤ n && n ≤ r.2

/-- The text goes on with a word character. -/
def startsWord : Text → Bool
  | [] => false
  | c :: _ => isWord c

/-- The words of a text: its maximal runs of word characters, in order. -/
def words : Text → List Text
  | [] => []
  | c :: t =>
    if isWord c then
      match startsWord t, words t with
      | true, w :: ws => (c :: w) :: ws
      | _, ws => [c] :: ws
    else words t

@[simp] theorem startsWord_nil : startsWord [] = false := rfl

@[simp] theorem startsWord_cons (c : Char) (t : Text) : startsWord (c :: t) = isWord c := rfl

@[simp] theorem words_nil : words [] = [] := rfl

/-- What is no word character leaves no trace in the words. -/
theorem words_cons_of_not_isWord {c : Char} {t : Text} (h : isWord c = false) :
    words (c :: t) = words t := by
  simp [words, h]

end SqlSanity.Text
