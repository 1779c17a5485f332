import SqlSanity.Text.Basic

/-!
# Text/Utf8 — bytes as text, and where they stop being text

Any bytes fall into *pieces*: a character in its UTF-8 form, a broken sequence, or a sequence that
the end of the bytes cuts off.  A broken sequence is the longest start of some character's form that
is there, or a single byte that starts none.  Bytes are text when every piece is a character;
otherwise the first other piece is the fault.  For display, each other piece is one U+FFFD.

* `Utf8.decode_eq_ok_iff` — bytes decode to a text exactly when their pieces are its characters;
* `Utf8.lossy_of_decode` — what decodes is displayed as it is.
-/

namespace SqlSanity

/-- A string of bytes. -/
abbrev Bytes := List UInt8

namespace Utf8

/-- A piece of some bytes: a character, a broken sequence of `length` bytes, or a sequence that the
end cuts off. -/
inductive Piece
  | char (c : Char)
  | broken (length : Nat)
  | cut
  deriving DecidableEq, Repr

/-- What a first byte calls for: how many bytes follow, and the bounds of the next one. -/
inductive Lead
  | one
  | two
  | three (lo hi : UInt8)
  | four (lo hi : UInt8)
  | none
  deriving DecidableEq, Repr

/-- The role of a byte at the start of a sequence.  The bounds on the second byte leave out overlong
forms, surrogates and code points above U+10FFFF. -/
def lead (b : UInt8) : Lead :=
  if b ≤ 0x7f then .one
  else if 0xc2 ≤ b && b ≤ 0xdf then .two
  else if b == 0xe0 then .three 0xa0 0xbf
  else if b == 0xed then .three 0x80 0x9f
  else if 0xe1 ≤ b && b ≤ 0xef then .three 0x80 0xbf
  else if b == 0xf0 then .four 0x90 0xbf
  else if 0xf1 ≤ b && b ≤ 0xf3 then .four 0x80 0xbf
  else if b == 0xf4 then .four 0x80 0x8f
  else .none

/-- A byte within bounds. -/
def within (lo hi b : UInt8) : Bool := lo ≤ b && b ≤ hi

/-- A byte that goes on with a sequence. -/
def isTail (b : UInt8) : Bool := within 0x80 0xbf b

/-- The character of a sequence of two bytes. -/
def char₂ (a b : UInt8) : Char := Char.ofNat ((a.toNat - 0xc0) * 64 + (b.toNat - 0x80))

/-- The character of a sequence of three bytes. -/
def char₃ (a b c : UInt8) : Char :=
  Char.ofNat (((a.toNat - 0xe0) * 64 + (b.toNat - 0x80)) * 64 + (c.toNat - 0x80))

/-- The character of a sequence of four bytes. -/
def char₄ (a b c d : UInt8) : Char :=
  Char.ofNat ((((a.toNat - 0xf0) * 64 + (b.toNat - 0x80)) * 64 + (c.toNat - 0x80)) * 64
    + (d.toNat - 0x80))

/-- The piece that starts with the byte `a`, when the bytes `as` follow it. -/
def pieceAt (a : UInt8) (as : Bytes) : Piece :=
  match lead a with
  | .one => .char (Char.ofNat a.toNat)
  | .two =>
    match as with
    | [] => .cut
    | b :: _ => if isTail b then .char (char₂ a b) else .broken 1
  | .three lo hi =>
    match as with
    | [] => .cut
    | b :: bs =>
      if within lo hi b then
        match bs with
        | [] => .cut
        | c :: _ => if isTail c then .char (char₃ a b c) else .broken 2
      else .broken 1
  | .four lo hi =>
    match as with
    | [] => .cut
    | b :: bs =>
      if within lo hi b then
        match bs with
        | [] => .cut
        | c :: cs =>
          if isTail c then
            match cs with
            | [] => .cut
            | d :: _ => if isTail d then .char (char₄ a b c d) else .broken 3
          else .broken 2
      else .broken 1
  | .none => .broken 1

/-- The pieces of some bytes after `skip` more bytes, which the last piece holds. -/
def piecesFrom : (skip : Nat) → Bytes → List Piece
  | _, [] => []
  | skip + 1, _ :: as => piecesFrom skip as
  | 0, a :: as =>
    match pieceAt a as with
    | .char c => .char c :: piecesFrom (c.utf8Size - 1) as
    | .broken n => .broken n :: piecesFrom (n - 1) as
    | .cut => [.cut]

/-- The pieces of some bytes, in order. -/
def pieces (bs : Bytes) : List Piece := piecesFrom 0 bs

/-- Skipping bytes is dropping them. -/
theorem piecesFrom_eq_drop : ∀ (n : Nat) (bs : Bytes), piecesFrom n bs = pieces (bs.drop n)
  | 0, _ => rfl
  | _ + 1, [] => rfl
  | n + 1, _ :: bs => piecesFrom_eq_drop n bs

/-- Where bytes stop being text: the index of the sequence at fault and its length, which a sequence
that the end cuts off does not have. -/
structure Fault where
  index : Nat
  length : Option Nat
  deriving DecidableEq, Repr

/-- The fault in words. -/
def Fault.message (f : Fault) : String :=
  match f.length with
  | some n => "invalid utf-8 sequence of " ++ toString n ++ " bytes from index " ++ toString f.index
  | none => "incomplete utf-8 byte sequence from index " ++ toString f.index

/-- The characters of pieces that are all characters, or the first fault; `index` bytes come
before. -/
def assemble : (index : Nat) → List Piece → Except Fault Text
  | _, [] => .ok []
  | index, .char c :: ps =>
    match assemble (index + c.utf8Size) ps with
    | .ok t => .ok (c :: t)
    | .error f => .error f
  | index, .broken n :: _ => .error ⟨index, some n⟩
  | index, .cut :: _ => .error ⟨index, none⟩

/-- The text that bytes stand for, or where they stop being text. -/
def decode (bs : Bytes) : Except Fault Text := assemble 0 (pieces bs)

/-- The UTF-8 form of a text. -/
def encode (t : Text) : Bytes := t.flatMap String.utf8EncodeChar

/-- The text that bytes stand for, if they are text. -/
def decode? (bs : Bytes) : Option Text := (decode bs).toOption

/-- The character that displays a piece. -/
def Piece.display : Piece → Char
  | .char c => c
  | _ => '\uFFFD'

/-- Bytes for display: each piece that is no character is shown as U+FFFD. -/
def lossy (bs : Bytes) : Text := (pieces bs).map Piece.display

/-- Pieces assemble to a text exactly when they are its characters. -/
theorem assemble_eq_ok_iff {index : Nat} {ps : List Piece} {t : Text} :
    assemble index ps = .ok t ↔ ps = t.map .char := by
  induction ps generalizing index t with
  | nil => cases t <;> simp [assemble]
  | cons p ps ih =>
    cases p with
    | char c =>
      have h := fun t => @ih (index + c.utf8Size) t
      cases ha : assemble (index + c.utf8Size) ps with
      | error f => cases t <;> simp_all [assemble]
      | ok u =>
        cases t with
        | nil => simp [assemble, ha]
        | cons d t =>
          have hu := (h u).1 ha
          have ht := h t
          rw [ha] at ht
          simp only [assemble, ha, Except.ok.injEq, List.cons.injEq, List.map_cons,
            Piece.char.injEq] at ht ⊢
          rw [ht]
    | broken n => cases t <;> simp [assemble]
    | cut => cases t <;> simp [assemble]

/-- **Bytes decode to a text exactly when their pieces are its characters.** -/
theorem decode_eq_ok_iff {bs : Bytes} {t : Text} : decode bs = .ok t ↔ pieces bs = t.map .char :=
  assemble_eq_ok_iff

/-- What decodes is displayed as it is. -/
theorem lossy_of_decode {bs : Bytes} {t : Text} (h : decode bs = .ok t) : lossy bs = t := by
  rw [lossy, decode_eq_ok_iff.1 h, List.map_map]
  exact List.map_id' t

end Utf8

end SqlSanity
