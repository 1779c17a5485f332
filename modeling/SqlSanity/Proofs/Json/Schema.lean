import SqlSanity.Proofs.Json.Payload

/-!
# Proofs/Json/Schema — what a value may be, and what is said under a name anywhere in it

A schema tells which values are accepted.  Objects are closed: a value has exactly the fields that
the schema lists, each once and in any order.  An alternative is exclusive: exactly one of the
schemas accepts the value.

* `Schema.accepts` — the check of a value;
* `Schema.accepts_array_iff`, `Schema.accepts_object_iff`, `Schema.accepts_oneOf_iff` — what the
  check says of each kind of schema;
* `Json.stringsAt` — the strings that stand under a name, at every depth.
-/

namespace SqlSanity

/-- What a value may be.  The fields of an object are all required, and no others are allowed. -/
inductive Schema
  | null
  | boolean
  | string
  | enum (names : List String)
  | array (items : Schema)
  | object (fields : List (String × Schema))
  | oneOf (alternatives : List Schema)

namespace Schema

mutual

/-- The value is one that the schema allows. -/
def accepts : Schema → Json → Bool
  | .null, .null => true
  | .boolean, .bool _ => true
  | .string, .string _ => true
  | .enum names, .string s => names.contains s
  | .array items, .array js => js.all fun j => accepts items j
  | .object fields, .object fs =>
    (fs.map Prod.fst).isPerm (fields.map Prod.fst) && fs.all fun f => acceptsField fields f.1 f.2
  | .oneOf alternatives, j => countAccepting alternatives j == 1
  | _, _ => false

/-- The value is one that the schema of a field allows. -/
def acceptsField : List (String × Schema) → String → Json → Bool
  | [], _, _ => false
  | (n, s) :: fields, k, j => if n = k then accepts s j else acceptsField fields k j

/-- How many schemas allow the value. -/
def countAccepting : List Schema → Json → Nat
  | [], _ => 0
  | s :: ss, j => (if accepts s j then 1 else 0) + countAccepting ss j

end

variable {fields : List (String × Schema)} {j : Json} {k : String}

theorem acceptsField_iff : ∀ {fields : List (String × Schema)},
    acceptsField fields k j = true ↔ ∃ s, fields.lookup k = some s ∧ s.accepts j = true
  | [] => by simp [acceptsField]
  | (n, s) :: fields => by
    rw [acceptsField, List.lookup_cons]
    by_cases h : n = k
    · simp [h]
    · have hne : (k == n) = false := beq_eq_false_iff_ne.2 (Ne.symm h)
      rw [if_neg h, hne]
      exact acceptsField_iff

theorem countAccepting_eq_countP (j : Json) : ∀ alternatives : List Schema,
    countAccepting alternatives j = alternatives.countP fun s => s.accepts j
  | [] => by rw [countAccepting, List.countP_nil]
  | s :: ss => by
    rw [countAccepting, countAccepting_eq_countP j ss, List.countP_cons, Nat.add_comm]

/-- **An array is accepted with all of its items.** -/
theorem accepts_array_iff {items : Schema} : (array items).accepts j = true ↔
    ∃ js, j = .array js ∧ ∀ x ∈ js, items.accepts x = true := by
  cases j <;> simp [accepts]

/-- **An object is accepted with exactly the fields that are listed**, each with a value that its
schema accepts. -/
theorem accepts_object_iff : (object fields).accepts j = true ↔
    ∃ fs, j = .object fs ∧ (fs.map Prod.fst).Perm (fields.map Prod.fst) ∧
      ∀ f ∈ fs, ∃ s, fields.lookup f.1 = some s ∧ s.accepts f.2 = true := by
  cases j <;> simp [accepts, List.isPerm_iff, acceptsField_iff]

/-- **A value of alternatives is accepted by exactly one of them.** -/
theorem accepts_oneOf_iff {alternatives : List Schema} : (oneOf alternatives).accepts j = true ↔
    alternatives.countP (fun s => s.accepts j) = 1 := by
  rw [accepts, countAccepting_eq_countP, beq_iff_eq]

end Schema

namespace Json

/-- The names of the fields of an object. -/
def keys : Json → List String
  | .object fields => fields.map Prod.fst
  | _ => []

/-- An object is accepted only with the fields that are listed. -/
theorem keys_perm_of_accepts {fields : List (String × Schema)} {j : Json}
    (h : (Schema.object fields).accepts j = true) : j.keys.Perm (fields.map Prod.fst) := by
  obtain ⟨fs, rfl, hperm, -⟩ := Schema.accepts_object_iff.1 h
  exact hperm

/-! ## What is said under a name -/

mutual

/-- The strings that stand under a name anywhere in a value, in their order. -/
def stringsAt (name : String) : Json → List String
  | .array items => stringsAtItems name items
  | .object fields => stringsAtFields name fields
  | _ => []

/-- The strings under a name in some items. -/
def stringsAtItems (name : String) : List Json → List String
  | [] => []
  | j :: js => stringsAt name j ++ stringsAtItems name js

/-- The strings under a name in some fields, those of the fields themselves included. -/
def stringsAtFields (name : String) : List (String × Json) → List String
  | [] => []
  | (k, j) :: fs =>
    (if k = name then j.string?.toList else []) ++ stringsAt name j ++ stringsAtFields name fs

end

variable {name : String}

theorem stringsAtItems_eq_flatMap (items : List Json) :
    stringsAtItems name items = items.flatMap (stringsAt name) := by
  induction items with
  | nil => rw [stringsAtItems, List.flatMap_nil]
  | cons j js ih => rw [stringsAtItems, ih, List.flatMap_cons]

/-- No string in a list of strings stands under a name. -/
@[simp] theorem stringsAt_strings (ss : List String) : stringsAt name (strings ss) = [] := by
  rw [strings, stringsAt, stringsAtItems_eq_flatMap, List.flatMap_map]
  exact List.flatMap_eq_nil_iff.2 fun s _ => rfl

end Json

end SqlSanity
