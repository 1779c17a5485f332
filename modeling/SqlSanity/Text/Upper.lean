import SqlSanity.Text.Basic
import SqlSanity.Text.UpperTable

/-!
# Text/Upper — capitals of a text

Full upper-casing, character by character: a capital may be several characters (`ß` is `SS`), and
characters above ASCII may have ASCII capitals (`ı` is `I`, `ſ` is `S`).
-/

namespace SqlSanity.Text

/-- The capital of a character. -/
def upperChar (c : Char) : Text :=
  let n := c.toNat
  if n < 0x80 then [c.toUpper]
  else match caseExpansions.lookup n with
    | some ns => ns.map Char.ofNat
    | none => match caseRuns.find? fun r => r.covers n with
      | some r => [Char.ofNat (r.apply n)]
      | none => [c]

/-- The text in capitals. -/
def upper (t : Text) : Text := t.flatMap upperChar

end SqlSanity.Text
