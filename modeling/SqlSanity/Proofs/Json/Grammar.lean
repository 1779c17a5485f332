import SqlSanity.Json.Basic

/-!
# Proofs/Json/Grammar — which texts are JSON, and that a printed text is one

`Spells` is the grammar of JSON, for values without numbers: which texts spell a value, with white
space wherever it may stand and with every way of escaping a character.  It says nothing of lines or
of how far in they are.  A printed text is one of the texts that spell its value: its new lines
stand where white space may, and each character is escaped in one of the ways there are.

* `Json.Spells` — the grammar;
* `Json.spellsChar_escape` — an escaped character spells the character;
* `Json.isDocument_text` — the text of a value is a document of that value.
-/

namespace SqlSanity

namespace Json

/-! ## White space -/

/-- White space between the tokens of a document. -/
def isLayoutChar (c : Char) : Bool := c == ' ' || c == '\t' || c == '\n' || c == '\r'

/-- A run of white space, which may be empty. -/
def IsLayout (t : Text) : Prop := ∀ c ∈ t, isLayoutChar c = true

theorem isLayout_nil : IsLayout [] := fun _ h => nomatch h

theorem isLayout_newline (depth : Nat) : IsLayout (newline depth) := by
  intro c hc
  rcases List.mem_cons.1 hc with rfl | hc
  · rfl
  · obtain rfl := List.eq_of_mem_replicate hc
    rfl

/-! ## Characters -/

/-- The number that a hexadecimal digit stands for, small or large. -/
def hexValue? (c : Char) : Option Nat :=
  if 0x30 ≤ c.toNat ∧ c.toNat ≤ 0x39 then some (c.toNat - 0x30)
  else if 0x61 ≤ c.toNat ∧ c.toNat ≤ 0x66 then some (c.toNat - 0x57)
  else if 0x41 ≤ c.toNat ∧ c.toNat ≤ 0x46 then some (c.toNat - 0x37)
  else none

/-- The code unit that four hexadecimal digits stand for. -/
def unit? (a b c d : Char) : Option Nat :=
  (hexValue? a).bind fun a => (hexValue? b).bind fun b => (hexValue? c).bind fun c =>
    (hexValue? d).map fun d => ((a * 16 + b) * 16 + c) * 16 + d

/-- A code unit that is the first half of a pair. -/
def isHigh (n : Nat) : Bool := 0xd800 ≤ n && n ≤ 0xdbff

/-- A code unit that is the second half of a pair. -/
def isLow (n : Nat) : Bool := 0xdc00 ≤ n && n ≤ 0xdfff

/-- The character that a pair of code units stands for. -/
def pairChar (m n : Nat) : Char := Char.ofNat (0x10000 + (m - 0xd800) * 0x400 + (n - 0xdc00))

/-- The character that one letter after a backslash stands for. -/
def short? (c : Char) : Option Char :=
  if c == '"' || c == '\\' || c == '/' then some c
  else if c == 'b' then some '\x08'
  else if c == 'f' then some '\x0c'
  else if c == 'n' then some '\n'
  else if c == 'r' then some '\r'
  else if c == 't' then some '\t'
  else none

/-- The ways to write a character in a string: as itself, with a backslash and one letter, as one
code unit, or as a pair of them. -/
inductive SpellsChar : Char → Text → Prop
  | itself {c : Char} (plain : 0x20 ≤ c.toNat) (noQuote : c ≠ '"') (noBackslash : c ≠ '\\') :
      SpellsChar c [c]
  | short {c d : Char} (letter : short? d = some c) : SpellsChar c ['\\', d]
  | unit {a b c d : Char} {n : Nat} (digits : unit? a b c d = some n) (noHigh : isHigh n = false)
      (noLow : isLow n = false) : SpellsChar (Char.ofNat n) ['\\', 'u', a, b, c, d]
  | pair {a b c d a' b' c' d' : Char} {m n : Nat} (digits : unit? a b c d = some m)
      (digits' : unit? a' b' c' d' = some n) (high : isHigh m = true) (low : isLow n = true) :
      SpellsChar (pairChar m n) (['\\', 'u', a, b, c, d] ++ ['\\', 'u', a', b', c', d'])

/-- The ways to write the characters of a string between its quotes. -/
inductive SpellsText : Text → Text → Prop
  | nil : SpellsText [] []
  | cons {c : Char} {s t u : Text} (char : SpellsChar c t) (rest : SpellsText s u) :
      SpellsText (c :: s) (t ++ u)

/-! ## Values -/

/-- What a piece of a document can stand for. -/
inductive Phrase
  | value (j : Json)
  | element (j : Json)
  | items (js : List Json)
  | member (key : String) (j : Json)
  | fields (fs : List (String × Json))

/-- The grammar: which texts spell a phrase.  An element is a value with white space around it, a
member is a key and an element, and commas stand between elements and between members. -/
inductive Spells : Phrase → Text → Prop
  | null : Spells (.value .null) ['n', 'u', 'l', 'l']
  | true : Spells (.value (.bool true)) ['t', 'r', 'u', 'e']
  | false : Spells (.value (.bool false)) ['f', 'a', 'l', 's', 'e']
  | string {s : String} {t : Text} (chars : SpellsText s.toList t) :
      Spells (.value (.string s)) ('"' :: t ++ ['"'])
  | array {js : List Json} {t : Text} (items : Spells (.items js) t) :
      Spells (.value (.array js)) ('[' :: t ++ [']'])
  | object {fs : List (String × Json)} {t : Text} (fields : Spells (.fields fs) t) :
      Spells (.value (.object fs)) ('{' :: t ++ ['}'])
  | element {j : Json} {a t b : Text} (before : IsLayout a) (value : Spells (.value j) t)
      (after : IsLayout b) : Spells (.element j) (a ++ t ++ b)
  | noItem {a : Text} (layout : IsLayout a) : Spells (.items []) a
  | lastItem {j : Json} {t : Text} (item : Spells (.element j) t) : Spells (.items [j]) t
  | moreItems {j k : Json} {js : List Json} {t u : Text} (item : Spells (.element j) t)
      (items : Spells (.items (k :: js)) u) : Spells (.items (j :: k :: js)) (t ++ ',' :: u)
  | member {key : String} {j : Json} {a t b u : Text} (before : IsLayout a)
      (chars : SpellsText key.toList t) (after : IsLayout b) (value : Spells (.element j) u) :
      Spells (.member key j) (a ++ '"' :: t ++ '"' :: b ++ ':' :: u)
  | noField {a : Text} (layout : IsLayout a) : Spells (.fields []) a
  | lastField {key : String} {j : Json} {t : Text} (field : Spells (.member key j) t) :
      Spells (.fields [(key, j)]) t
  | moreFields {key : String} {j : Json} {f : String × Json} {fs : List (String × Json)}
      {t u : Text} (field : Spells (.member key j) t) (fields : Spells (.fields (f :: fs)) u) :
      Spells (.fields ((key, j) :: f :: fs)) (t ++ ',' :: u)

/-- A document: one value and nothing else but white space around it. -/
def IsDocument (j : Json) (t : String) : Prop := Spells (.element j) t.toList

/-! ## What is printed -/

theorem hexValue?_hexDigit : ∀ {n : Nat}, n < 16 → hexValue? (hexDigit n) = some n := by decide

/-- The code unit of a control character is written with two zeros. -/
theorem unit?_hexDigit {n : Nat} (h : n < 0x20) :
    unit? '0' '0' (hexDigit (n / 16)) (hexDigit (n % 16)) = some n := by
  have hzero : hexValue? '0' = some 0 := by decide
  have hvalue : ((0 * 16 + 0) * 16 + n / 16) * 16 + n % 16 = n := by omega
  rw [unit?, hzero, hexValue?_hexDigit (by omega), hexValue?_hexDigit (by omega)]
  exact congrArg some hvalue

/-- **An escaped character spells the character.** -/
theorem spellsChar_escape (c : Char) : SpellsChar c (escape c) := by
  have hshort : ∀ d e : Char, c = d → short? e = some d → SpellsChar c ['\\', e] :=
    fun d e hd he => .short (hd ▸ he)
  rw [escape]
  simp only [beq_iff_eq]
  split
  · next h => exact hshort _ '"' h (by decide)
  next hquote =>
  split
  · next h => exact hshort _ '\\' h (by decide)
  next hbackslash =>
  split
  · next h => exact hshort _ 'b' h (by decide)
  split
  · next h => exact hshort _ 'f' h (by decide)
  split
  · next h => exact hshort _ 'n' h (by decide)
  split
  · next h => exact hshort _ 'r' h (by decide)
  split
  · next h => exact hshort _ 't' h (by decide)
  split
  · next hcontrol =>
    have hhigh : isHigh c.toNat = false := by
      rw [isHigh, Bool.and_eq_false_iff, decide_eq_false_iff_not]
      exact .inl (by omega)
    have hlow : isLow c.toNat = false := by
      rw [isLow, Bool.and_eq_false_iff, decide_eq_false_iff_not]
      exact .inl (by omega)
    have hspells := SpellsChar.unit (unit?_hexDigit hcontrol) hhigh hlow
    rwa [Char.ofNat_toNat] at hspells
  · next hplain => exact .itself (Nat.not_lt.1 hplain) hquote hbackslash

/-- Escaped characters spell the characters. -/
theorem spellsText_flatMap_escape : ∀ t : Text, SpellsText t (t.flatMap escape)
  | [] => .nil
  | c :: t => .cons (spellsChar_escape c) (spellsText_flatMap_escape t)

/-- A printed field spells its member, when what is printed of its value does. -/
theorem spells_member (key : String) {j : Json} {a t b : Text} (ha : IsLayout a)
    (hvalue : Spells (.value j) t) (hb : IsLayout b) :
    Spells (.member key j) (a ++ quoted key ++ ':' :: ' ' :: t ++ b) := by
  have hspace : IsLayout [' '] := by simp [IsLayout, isLayoutChar]
  have helement : Spells (.element j) ([' '] ++ t ++ b) := .element hspace hvalue hb
  have hmember := Spells.member ha (spellsText_flatMap_escape key.toList) isLayout_nil helement
  simpa [quoted] using hmember

mutual

/-- **The text of a value spells it**, however far in its lines are. -/
theorem spells_textAt : ∀ (depth : Nat) (j : Json), Spells (.value j) (textAt depth j)
  | _, .null => .null
  | _, .bool true => .true
  | _, .bool false => .false
  | _, .string s => .string (spellsText_flatMap_escape s.toList)
  | _, .array [] => .array (.noItem isLayout_nil)
  | depth, .array (j :: js) => by
    have hitems := spells_itemsText depth (depth + 1) (spells_textAt (depth + 1) j) js
    simpa [textAt] using Spells.array hitems
  | _, .object [] => .object (.noField isLayout_nil)
  | depth, .object ((k, j) :: fs) => by
    have hfields := spells_fieldsText depth (depth + 1) k (spells_textAt (depth + 1) j) fs
    simpa [textAt] using Spells.object hfields

/-- The texts of some items spell them, from the new line before the first to the one after the
last. -/
theorem spells_itemsText (outer depth : Nat) {j : Json} {t : Text} (h : Spells (.value j) t) :
    ∀ js : List Json, Spells (.items (j :: js)) (newline depth ++ t ++ itemsText depth js
      ++ newline outer)
  | [] => by
    rw [itemsText, List.append_nil]
    exact .lastItem (.element (isLayout_newline depth) h (isLayout_newline outer))
  | k :: js => by
    have hrest := spells_itemsText outer depth (spells_textAt depth k) js
    have hitem := Spells.element (isLayout_newline depth) h isLayout_nil
    simpa [itemsText] using Spells.moreItems hitem hrest

/-- The texts of some fields spell them, from the new line before the first to the one after the
last. -/
theorem spells_fieldsText (outer depth : Nat) (key : String) {j : Json} {t : Text}
    (h : Spells (.value j) t) : ∀ fs : List (String × Json),
      Spells (.fields ((key, j) :: fs)) (newline depth ++ quoted key ++ ':' :: ' ' :: t
        ++ fieldsText depth fs ++ newline outer)
  | [] => by
    rw [fieldsText, List.append_nil]
    exact .lastField (spells_member key (isLayout_newline depth) h (isLayout_newline outer))
  | (k, i) :: fs => by
    have hrest := spells_fieldsText outer depth k (spells_textAt depth i) fs
    have hfield := spells_member key (isLayout_newline depth) h isLayout_nil
    simpa [fieldsText] using Spells.moreFields hfield hrest

end

/-- **The text of a value is a document of that value**, and so it is when white space follows. -/
theorem isDocument_text (j : Json) (after : String) (hafter : IsLayout after.toList) :
    IsDocument j (j.text ++ after) := by
  rw [IsDocument, String.toList_append, text, String.toList_ofList]
  exact Spells.element isLayout_nil (spells_textAt 0 j) hafter

end Json

end SqlSanity
