import SqlSanity.Text.Basic

/-!
# Json/Basic — JSON values and their indented text

A value is written over several lines: each element of an array and each field of an object has a
line of its own, two spaces further in than the brackets around it; an empty array or object is two
brackets.  In a string, quotes, backslashes and the characters below U+0020 are escaped and all
others stand for themselves.

* `Json.text` — the text of a value.
-/

namespace SqlSanity

/-- A JSON value; no number is needed here. -/
inductive Json
  | null
  | bool (b : Bool)
  | string (s : String)
  | array (items : List Json)
  | object (fields : List (String × Json))

namespace Json

/-- A hexadecimal digit, small. -/
def hexDigit (n : Nat) : Char := if n < 10 then Char.ofNat (0x30 + n) else Char.ofNat (0x57 + n)

/-- A character inside a string. -/
def escape (c : Char) : Text :=
  if c == '"' then ['\\', '"']
  else if c == '\\' then ['\\', '\\']
  else if c == '\x08' then ['\\', 'b']
  else if c == '\x0c' then ['\\', 'f']
  else if c == '\n' then ['\\', 'n']
  else if c == '\r' then ['\\', 'r']
  else if c == '\t' then ['\\', 't']
  else if c.toNat < 0x20 then
    ['\\', 'u', '0', '0', hexDigit (c.toNat / 16), hexDigit (c.toNat % 16)]
  else [c]

/-- A string between its quotes. -/
def quoted (s : String) : Text := '"' :: s.toList.flatMap escape ++ ['"']

/-- A new line, `depth` steps in. -/
def newline (depth : Nat) : Text := '\n' :: List.replicate (2 * depth) ' '

mutual

/-- The text of a value whose own lines are `depth` steps in. -/
def textAt (depth : Nat) : Json → Text
  | .null => ['n', 'u', 'l', 'l']
  | .bool true => ['t', 'r', 'u', 'e']
  | .bool false => ['f', 'a', 'l', 's', 'e']
  | .string s => quoted s
  | .array [] => ['[', ']']
  | .array (j :: js) =>
    '[' :: newline (depth + 1) ++ textAt (depth + 1) j ++ itemsText (depth + 1) js
      ++ newline depth ++ [']']
  | .object [] => ['{', '}']
  | .object ((k, j) :: fs) =>
    '{' :: newline (depth + 1) ++ quoted k ++ ':' :: ' ' :: textAt (depth + 1) j
      ++ fieldsText (depth + 1) fs ++ newline depth ++ ['}']

/-- The texts of the items after the first, a comma before each. -/
def itemsText (depth : Nat) : List Json → Text
  | [] => []
  | j :: js => ',' :: newline depth ++ textAt depth j ++ itemsText depth js

/-- The texts of the fields after the first, a comma before each. -/
def fieldsText (depth : Nat) : List (String × Json) → Text
  | [] => []
  | (k, j) :: fs =>
    ',' :: newline depth ++ quoted k ++ ':' :: ' ' :: textAt depth j ++ fieldsText depth fs

end

/-- The text of a value. -/
def text (j : Json) : String := String.ofList (j.textAt 0)

/-- An array of strings. -/
def strings (ss : List String) : Json := .array (ss.map .string)

end Json

end SqlSanity
