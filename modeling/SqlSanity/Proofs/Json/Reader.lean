import SqlSanity.Proofs.Json.Grammar

/-!
# Proofs/Json/Reader — reading a document back

A reader takes a document one character at a time.  It keeps the containers that are still open, the
innermost first, and the place it has come to inside of that one.  What the grammar derives it reads
as the grammar says, so no text is a document of two values.

* `Json.Reader.step` — what one character does;
* `Json.reads_of_spells` — the reader goes through a phrase and takes what the phrase stands for;
* `Json.read?_of_isDocument` — a document is read as the value that it is a document of;
* `Json.read?_text` — the text of a value is read back.
-/

namespace SqlSanity

namespace Json

/-- What a string is read for: a value, or the key after some fields. -/
inductive Role
  | value
  | key (fields : List (String × Json))

/-- How far an escaped character has been read: not at all, or past the backslash, or into the
digits of a code unit, or past the first half of a pair. -/
inductive Escape
  | idle
  | begun (high : Option Nat)
  | digits (high : Option Nat) (value left : Nat)
  | half (high : Nat)

/-- The place that a reader has come to: before a value, a key or a colon, after a value, or inside
a word or a string. -/
inductive Place
  | value
  | key (fields : List (String × Json))
  | colon (fields : List (String × Json)) (key : String)
  | after (j : Json)
  | word (rest : Text) (j : Json)
  | string (role : Role) (chars : Text) (escape : Escape)

/-- An open container, with what has been read of it. -/
inductive Frame
  | array (items : List Json)
  | object (fields : List (String × Json)) (key : String)

/-- A reader: its place, and the open containers, the innermost first. -/
structure Reader where
  place : Place
  stack : List Frame

/-- The characters of a string and what is left to be read of an escape, after a code unit. -/
def endUnit (chars : Text) : Option Nat → Nat → Option (Text × Escape)
  | none, n =>
    if isHigh n then some (chars, .half n)
    else if isLow n then none
    else some (chars ++ [Char.ofNat n], .idle)
  | some m, n => if isLow n then some (chars ++ [pairChar m n], .idle) else none

/-- What a character does inside a string, unless it is the quote at the end. -/
def Escape.step (chars : Text) (c : Char) : Escape → Option (Text × Escape)
  | .idle =>
    if c == '\\' then some (chars, .begun none)
    else if 0x20 ≤ c.toNat then some (chars ++ [c], .idle)
    else none
  | .begun high =>
    if c == 'u' then some (chars, .digits high 0 3)
    else if high.isSome then none
    else (short? c).map fun d => (chars ++ [d], .idle)
  | .digits high value left =>
    (hexValue? c).bind fun d =>
      match left with
      | 0 => endUnit chars high (value * 16 + d)
      | left + 1 => some (chars, .digits high (value * 16 + d) left)
  | .half high => if c == '\\' then some (chars, .begun (some high)) else none

namespace Reader

/-- The start of a value. -/
def beginValue (stack : List Frame) (c : Char) : Option Reader :=
  if c == 'n' then some ⟨.word ['u', 'l', 'l'] .null, stack⟩
  else if c == 't' then some ⟨.word ['r', 'u', 'e'] (.bool true), stack⟩
  else if c == 'f' then some ⟨.word ['a', 'l', 's', 'e'] (.bool false), stack⟩
  else if c == '"' then some ⟨.string .value [] .idle, stack⟩
  else if c == '[' then some ⟨.value, .array [] :: stack⟩
  else if c == '{' then some ⟨.key [], stack⟩
  else match c, stack with
    | ']', .array [] :: stack => some ⟨.after (.array []), stack⟩
    | _, _ => none

/-- What comes after a value. -/
def endValue (j : Json) (c : Char) : List Frame → Option Reader
  | .array items :: stack =>
    if c == ',' then some ⟨.value, .array (items ++ [j]) :: stack⟩
    else if c == ']' then some ⟨.after (.array (items ++ [j])), stack⟩
    else none
  | .object fields key :: stack =>
    if c == ',' then some ⟨.key (fields ++ [(key, j)]), stack⟩
    else if c == '}' then some ⟨.after (.object (fields ++ [(key, j)])), stack⟩
    else none
  | [] => none

/-- The end of a string. -/
def endString (role : Role) (chars : Text) (stack : List Frame) : Reader :=
  match role with
  | .value => ⟨.after (.string (String.ofList chars)), stack⟩
  | .key fields => ⟨.colon fields (String.ofList chars), stack⟩

/-- The start of a key, or the end of an object with no fields. -/
def beginKey (fields : List (String × Json)) (stack : List Frame) (c : Char) : Option Reader :=
  if c == '"' then some ⟨.string (.key fields) [] .idle, stack⟩
  else if c == '}' && fields.isEmpty then some ⟨.after (.object []), stack⟩
  else none

/-- **What one character does.**  White space does nothing, except inside a word or a string. -/
def step (r : Reader) (c : Char) : Option Reader :=
  match r.place with
  | .value => if isLayoutChar c then some r else beginValue r.stack c
  | .key fields => if isLayoutChar c then some r else beginKey fields r.stack c
  | .colon fields key =>
    if isLayoutChar c then some r
    else if c == ':' then some ⟨.value, .object fields key :: r.stack⟩
    else none
  | .after j => if isLayoutChar c then some r else endValue j c r.stack
  | .word [] _ => none
  | .word (d :: rest) j =>
    if c == d then some ⟨if rest.isEmpty then .after j else .word rest j, r.stack⟩ else none
  | .string role chars .idle =>
    if c == '"' then some (endString role chars r.stack)
    else (Escape.idle.step chars c).map fun s => ⟨.string role s.1 s.2, r.stack⟩
  | .string role chars escape =>
    (escape.step chars c).map fun s => ⟨.string role s.1 s.2, r.stack⟩

/-- What some characters do, one after another. -/
def run (r : Reader) (t : Text) : Option Reader := t.foldlM step r

/-- What has been read, when it is a whole value. -/
def result? : Reader → Option Json
  | ⟨.after j, []⟩ => some j
  | _ => none

variable {r r' : Reader} {c : Char} {t u : Text}

@[simp] theorem run_nil : r.run [] = some r := rfl

theorem run_cons : r.run (c :: t) = (r.step c).bind fun r => r.run t := List.foldlM_cons

theorem run_append : r.run (t ++ u) = (r.run t).bind fun r => r.run u := List.foldlM_append

theorem run_append_of (h : r.run t = some r') : r.run (t ++ u) = r'.run u := by
  rw [run_append, h, Option.bind_some]

/-! ## White space -/

/-- White space may stand at the place. -/
def skips : Place → Bool
  | .value | .key _ | .colon _ _ | .after _ => true
  | .word _ _ | .string _ _ _ => false

theorem step_layout {place : Place} {stack : List Frame} (h : skips place = true)
    (hc : isLayoutChar c = true) : step ⟨place, stack⟩ c = some ⟨place, stack⟩ := by
  cases place with
  | value => exact if_pos hc
  | key fields => exact if_pos hc
  | colon fields key => exact if_pos hc
  | after j => exact if_pos hc
  | word rest j => cases h
  | string role chars escape => cases h

/-- **White space does nothing** where it may stand. -/
theorem run_layout {place : Place} {stack : List Frame} (h : skips place = true) :
    ∀ {a : Text}, IsLayout a → run ⟨place, stack⟩ a = some ⟨place, stack⟩
  | [], _ => rfl
  | c :: a, ha => by
    rw [run_cons, step_layout h (ha c List.mem_cons_self), Option.bind_some]
    exact run_layout h fun d hd => ha d (List.mem_cons_of_mem c hd)

/-! ## Strings -/

section Strings

variable (role : Role) (stack : List Frame) {chars : Text} {high : Option Nat} {n : Nat}

/-- A backslash begins an escape, and the letter `u` in it the digits of a code unit. -/
theorem run_backslash_u (chars : Text) : run ⟨.string role chars .idle, stack⟩ ['\\', 'u'] =
    some ⟨.string role chars (.digits none 0 3), stack⟩ := rfl

/-- After the first half of a pair, the digits of the second one begin. -/
theorem run_half_backslash_u (chars : Text) (m : Nat) :
    run ⟨.string role chars (.half m), stack⟩ ['\\', 'u'] =
      some ⟨.string role chars (.digits (some m) 0 3), stack⟩ := rfl

/-- Four digits are read as their code unit. -/
theorem run_digits {a b c d : Char} (h : unit? a b c d = some n) :
    run ⟨.string role chars (.digits high 0 3), stack⟩ [a, b, c, d] =
      (endUnit chars high n).map fun s => ⟨.string role s.1 s.2, stack⟩ := by
  rw [unit?] at h
  obtain ⟨a', ha, h⟩ := Option.bind_eq_some_iff.1 h
  obtain ⟨b', hb, h⟩ := Option.bind_eq_some_iff.1 h
  obtain ⟨c', hc, h⟩ := Option.bind_eq_some_iff.1 h
  obtain ⟨d', hd, rfl⟩ := Option.map_eq_some_iff.1 h
  simp [run_cons, step, Escape.step, ha, hb, hc, hd]

/-- **The reader takes a character as it is spelled.** -/
theorem run_of_spellsChar (h : SpellsChar c t) : run ⟨.string role chars .idle, stack⟩ t =
    some ⟨.string role (chars ++ [c]) .idle, stack⟩ := by
  cases h with
  | itself plain noQuote noBackslash =>
    simp [run_cons, step, Escape.step, plain, noQuote, noBackslash]
  | @short _ d letter =>
    have hu : d ≠ 'u' := by
      rintro rfl
      rw [show short? 'u' = none by decide] at letter
      cases letter
    simp [run_cons, step, Escape.step, letter, hu]
  | @unit a b c d n digits noHigh noLow =>
    have hend : endUnit chars none n = some (chars ++ [Char.ofNat n], .idle) := by
      simp [endUnit, noHigh, noLow]
    have hrun := run_append_of (u := [a, b, c, d]) (run_backslash_u role stack chars)
    rw [run_digits role stack digits, hend] at hrun
    exact hrun
  | @pair a b c d a' b' c' d' m n digits digits' high low =>
    have hhalf : endUnit chars none m = some (chars, .half m) := by simp [endUnit, high]
    have hend : endUnit chars (some m) n = some (chars ++ [pairChar m n], .idle) := by
      simp [endUnit, low]
    have hfirst := run_append_of (u := [a, b, c, d]) (run_backslash_u role stack chars)
    have hsecond := run_append_of (u := [a', b', c', d']) (run_half_backslash_u role stack chars m)
    rw [run_digits role stack digits, hhalf] at hfirst
    rw [run_digits role stack digits', hend] at hsecond
    exact (run_append_of hfirst).trans hsecond

/-- **The reader takes the characters of a string as they are spelled.** -/
theorem run_of_spellsText (h : SpellsText t u) : run ⟨.string role chars .idle, stack⟩ u =
    some ⟨.string role (chars ++ t) .idle, stack⟩ := by
  induction h generalizing chars with
  | nil => rw [run_nil, List.append_nil]
  | cons char rest ih =>
    rw [run_append_of (run_of_spellsChar role stack char), ih, List.append_assoc,
      List.singleton_append]

/-- A string between its quotes is read to its end. -/
theorem run_quoted (h : SpellsText t u) : run ⟨.string role [] .idle, stack⟩ (u ++ ['"']) =
    some (endString role t stack) := by
  rw [run_append_of (run_of_spellsText role stack h), List.nil_append]
  rfl

end Strings

/-! ## Values -/

/-- The reader goes through a text and takes it for a phrase.  A value and a member are read
whatever has been read before; items and fields are read up to the bracket after them, which closes
the container that they are in. -/
def Reads : Phrase → Text → Prop
  | .value j, t | .element j, t => ∀ stack, run ⟨.value, stack⟩ t = some ⟨.after j, stack⟩
  | .member key j, t => ∀ fields stack,
    run ⟨.key fields, stack⟩ t = some ⟨.after j, .object fields key :: stack⟩
  | .items js, t => ∀ done stack, (js = [] → done = []) →
    run ⟨.value, .array done :: stack⟩ (t ++ [']']) = some ⟨.after (.array (done ++ js)), stack⟩
  | .fields fs, t => ∀ done stack, (fs = [] → done = []) →
    run ⟨.key done, stack⟩ (t ++ ['}']) = some ⟨.after (.object (done ++ fs)), stack⟩

/-- **The reader takes a text for what the grammar says that it spells.** -/
theorem reads_of_spells {phrase : Phrase} (h : Spells phrase t) : Reads phrase t := by
  induction h with
  | null => exact fun _ => rfl
  | true => exact fun _ => rfl
  | false => exact fun _ => rfl
  | @string s t chars =>
    intro stack
    have hquoted := run_quoted .value stack chars
    rw [endString, String.ofList_toList] at hquoted
    exact hquoted
  | array _ ih => exact fun stack => ih [] stack fun _ => rfl
  | object _ ih => exact fun stack => ih [] stack fun _ => rfl
  | element before _ after ih =>
    intro stack
    rw [List.append_assoc, run_append_of (run_layout rfl before), run_append_of (ih stack),
      run_layout rfl after]
  | noItem layout =>
    intro done stack hdone
    obtain rfl := hdone rfl
    rw [run_append_of (run_layout rfl layout)]
    rfl
  | lastItem _ ih =>
    intro done stack _
    rw [run_append_of (ih _)]
    rfl
  | @moreItems j k js t u _ _ ihitem ihitems =>
    intro done stack _
    rw [List.append_assoc, run_append_of (ihitem _), List.cons_append, run_cons]
    have hnext := ihitems (done ++ [j]) stack fun h => nomatch h
    rw [List.append_assoc] at hnext
    exact hnext
  | @member key j a t b u before chars after _ ih =>
    intro fields stack
    have hkey := run_quoted (.key fields) stack chars
    rw [endString, String.ofList_toList] at hkey
    have htext : a ++ '"' :: t ++ '"' :: b ++ ':' :: u
        = a ++ ('"' :: (t ++ ['"']) ++ (b ++ ':' :: u)) := by simp
    have hopen : run ⟨.key fields, stack⟩ ('"' :: (t ++ ['"'])) =
        some ⟨.colon fields key, stack⟩ := hkey
    rw [htext, run_append_of (run_layout rfl before), run_append_of hopen,
      run_append_of (run_layout rfl after), run_cons]
    exact ih _
  | noField layout =>
    intro done stack hdone
    obtain rfl := hdone rfl
    rw [run_append_of (run_layout rfl layout)]
    rfl
  | lastField _ ih =>
    intro done stack _
    rw [run_append_of (ih _ _)]
    rfl
  | @moreFields key j f fs t u _ _ ihfield ihfields =>
    intro done stack _
    rw [List.append_assoc, run_append_of (ihfield _ _), List.cons_append, run_cons]
    have hnext := ihfields (done ++ [(key, j)]) stack fun h => nomatch h
    rw [List.append_assoc] at hnext
    exact hnext

end Reader

/-- The value of a document, if the text is one. -/
def read? (t : String) : Option Json := (Reader.run ⟨.value, []⟩ t.toList).bind Reader.result?

/-- **A document is read as the value that it is a document of.** -/
theorem read?_of_isDocument {j : Json} {t : String} (h : IsDocument j t) : read? t = some j := by
  rw [read?, Reader.reads_of_spells h []]
  rfl

/-- **The text of a value is read back.** -/
theorem read?_text (j : Json) : read? j.text = some j := by
  have hdocument := isDocument_text j "" isLayout_nil
  rw [String.append_empty] at hdocument
  exact read?_of_isDocument hdocument

end Json

end SqlSanity
