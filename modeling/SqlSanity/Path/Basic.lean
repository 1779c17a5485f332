import SqlSanity.Text.Utf8

/-!
# Path/Basic — paths as bytes

A path is a string of bytes, never normalised: `r//` joined with `a` is `r//a`.  Slashes cut it into
*segments*; an empty segment and a single dot name nothing, except for a dot at the very start of a
relative path, which stands for the starting place.

* `Path.join_of_isAbsolute` — an absolute path takes the place of what it is joined to;
* `Path.isVoid_iff` — the segments that name nothing;
* `Path.segments_ne_nil` — a path has a segment.
-/

namespace SqlSanity

/-- A path, byte for byte. -/
structure Path where
  bytes : Bytes
  deriving DecidableEq, Repr

namespace Path

/-- The byte between two names. -/
def slash : UInt8 := 0x2f

/-- The byte of the names `.` and `..`. -/
def dot : UInt8 := 0x2e

/-- The path that a string spells. -/
def ofString (s : String) : Path := ⟨Utf8.encode s.toList⟩

/-- The path for display; bytes that are no text are shown as U+FFFD. -/
def display (p : Path) : String := String.ofList (Utf8.lossy p.bytes)

/-- The path as a string, if it is one. -/
def toString? (p : Path) : Option String := (Utf8.decode? p.bytes).map String.ofList

/-- A path that starts at the root of the file system. -/
def isAbsolute (p : Path) : Bool := p.bytes.head? == some slash

/-- A path that starts wherever it is seen from. -/
def isRelative (p : Path) : Bool := !p.isAbsolute

/-- A path that ends in a slash, so that it can only name a directory. -/
def endsInSlash (p : Path) : Bool := p.bytes.getLast? == some slash

/-- The path `q` seen from `p`: `q` itself when it is absolute, else `p`, a slash unless `p` is
empty or ends in one, and `q`. -/
def join (p q : Path) : Path :=
  if q.isAbsolute then q
  else if p.bytes.isEmpty || p.endsInSlash then ⟨p.bytes ++ q.bytes⟩
  else ⟨p.bytes ++ slash :: q.bytes⟩

/-- The pieces of a string of bytes between its slashes. -/
def segments : Bytes → List Bytes
  | [] => [[]]
  | b :: bs =>
    if b == slash then [] :: segments bs
    else match segments bs with
      | [] => [[b]]
      | s :: ss => (b :: s) :: ss

/-- Segments with a slash between any two. -/
def unite : List Bytes → Bytes
  | [] => []
  | [s] => s
  | s :: ss => s ++ slash :: unite ss

/-- A segment that names nothing: empty, or a single dot. -/
def isVoid (s : Bytes) : Bool := s.isEmpty || s == [dot]

/-- The steps that a path takes: its segments but for the empty ones. -/
def steps (p : Path) : List Bytes := (segments p.bytes).filter fun s => !s.isEmpty

/-- The last step of the path takes a name, not a dot or two. -/
def endsInName (p : Path) : Bool :=
  match p.steps.getLast? with
  | none => false
  | some s => s != [dot] && s != [dot, dot]

/-- The last name of a path, which `..` is not. -/
def fileName? (p : Path) : Option Bytes :=
  match (segments p.bytes).reverse.find? fun s => !isVoid s with
  | none => none
  | some s => if s == [dot, dot] then none else some s

/-- The part of a name after its last dot, unless that dot comes first. -/
def extensionOf? (name : Bytes) : Option Bytes :=
  let back := name.reverse
  match back.dropWhile (· != dot) with
  | [] => none
  | _ :: before => if before.isEmpty then none else some (back.takeWhile (· != dot)).reverse

/-- The extension of the last name of a path. -/
def extension? (p : Path) : Option Bytes := p.fileName?.bind extensionOf?

/-- An absolute path takes the place of what it is joined to. -/
theorem join_of_isAbsolute {p q : Path} (h : q.isAbsolute = true) : p.join q = q := by
  simp [join, h]

/-- What names nothing is empty or a single dot. -/
theorem isVoid_iff {s : Bytes} : isVoid s = true ↔ s = [] ∨ s = [dot] := by
  rw [isVoid, Bool.or_eq_true, List.isEmpty_iff, beq_iff_eq]

theorem isVoid_eq_false_iff {s : Bytes} : isVoid s = false ↔ s ≠ [] ∧ s ≠ [dot] := by
  rw [← Bool.not_eq_true, isVoid_iff, not_or]

/-- Even the empty path has a segment. -/
theorem segments_ne_nil : ∀ bs : Bytes, segments bs ≠ []
  | [] => by simp [segments]
  | b :: bs => by
    rw [segments]
    split
    · simp
    · split <;> simp

/-- **Cutting at the slashes loses nothing.** -/
theorem unite_segments : ∀ bs : Bytes, unite (segments bs) = bs
  | [] => rfl
  | b :: bs => by
    have ih := unite_segments bs
    rw [segments]
    cases h : segments bs with
    | nil => exact absurd h (segments_ne_nil bs)
    | cons s ss =>
      rw [h] at ih
      split
      · next hb => simp_all [unite]
      · cases ss <;> simp_all [unite]

end Path

end SqlSanity
