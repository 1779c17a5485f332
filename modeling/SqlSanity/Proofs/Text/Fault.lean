import SqlSanity.Proofs.Text.Utf8

/-!
# Proofs/Text/Fault — where bytes stop being text

A decoder reads one character after the other and gives up at the first sequence that is none.  Here
the place is told from the bytes alone: it is behind the longest text that they start with, and what
stands there is the start of a character as far as it goes.  A byte more or less would make the text
longer, or the start no start, so the fault is determined by the bytes.

* `Utf8.isStart_one_iff`, `Utf8.isStart_two_iff`, `Utf8.isStart_three_iff` — the starts of
  characters;
* `Utf8.Stops` — where bytes stop being text, and how long the broken sequence is;
* `Utf8.decode_eq_error_iff` — decoding finds exactly that.
-/

namespace SqlSanity

namespace Utf8

/-! ## Prefixes -/

/-- The longest prefix of some bytes that has a property. -/
structure IsLongest (P : Bytes → Prop) (s bs : Bytes) : Prop where
  isPrefix : s <+: bs
  holds : P s
  length_le : ∀ s', s' <+: bs → P s' → s'.length ≤ s.length

/-- There is one longest prefix at most. -/
theorem IsLongest.unique {P : Bytes → Prop} {s s' bs : Bytes} (h : IsLongest P s bs)
    (h' : IsLongest P s' bs) : s = s' := by
  have hle : s.length ≤ s'.length := h'.length_le s h.isPrefix h.holds
  have hge : s'.length ≤ s.length := h.length_le s' h'.isPrefix h'.holds
  exact (List.prefix_of_prefix_length_le h.isPrefix h'.isPrefix hle).eq_of_length
    (Nat.le_antisymm hle hge)

/-- Bytes that are the form of a text. -/
def IsText (bs : Bytes) : Prop := ∃ t, bs = encode t

/-- Bytes with which the form of a character starts, without its end. -/
def IsStart (s : Bytes) : Prop := ∃ c more, String.utf8EncodeChar c = s ++ more ∧ more ≠ []

variable {a b d e : UInt8} {s s' as bs rest : Bytes} {c : Char} {n : Nat} {lo hi : UInt8}

theorem isStart_nil : IsStart [] := ⟨'a', _, rfl, List.cons_ne_nil _ _⟩

/-- What comes first in a start is a start. -/
theorem IsStart.of_append (h : IsStart (s ++ s')) : IsStart s := by
  obtain ⟨c, more, hform, hne⟩ := h
  exact ⟨c, s' ++ more, by rw [hform, List.append_assoc], List.append_ne_nil_of_right_ne_nil s' hne⟩

/-- A start that the next byte breaks is as long as a start can be. -/
theorem IsStart.isLongest (h : IsStart s) (hnext : ¬IsStart (s ++ [b])) :
    IsLongest IsStart s (s ++ b :: rest) where
  isPrefix := List.prefix_append s _
  holds := h
  length_le s' hs' hstart := by
    refine Nat.le_of_not_lt fun hlt => ?_
    have hlong : (s ++ [b]).length ≤ s'.length := by
      rw [List.length_append, List.length_singleton]
      omega
    have hb : s ++ [b] <+: s ++ b :: rest := ⟨rest, by rw [List.append_assoc]; rfl⟩
    obtain ⟨u, rfl⟩ := List.prefix_of_prefix_length_le hb hs' hlong
    exact hnext hstart.of_append

/-! ## The starts of characters, by their length -/

theorem isStart_iff : IsStart s ↔ ∃ c more, IsForm c (s ++ more) ∧ more ≠ [] := by
  simp only [IsStart, encodeChar_eq_iff]

theorem isTail_least : isTail 0x80 = true := by decide

theorem within_lo_of_three (h : lead a = .three lo hi) : within lo hi lo = true := by
  obtain ⟨-, rfl, rfl⟩ := lead_eq_three_iff.1 h
  rw [within_iff]
  split <;> split <;> simp only [UInt8.reduceToNat] <;> omega

theorem within_lo_of_four (h : lead a = .four lo hi) : within lo hi lo = true := by
  obtain ⟨-, rfl, rfl⟩ := lead_eq_four_iff.1 h
  rw [within_iff]
  split <;> split <;> simp only [UInt8.reduceToNat] <;> omega

/-- A byte starts a character that goes on when it calls for more bytes. -/
theorem isStart_one_iff : IsStart [a] ↔ lead a ≠ .one ∧ lead a ≠ .none := by
  rw [isStart_iff]
  constructor
  · rintro ⟨c, more, hform, hne⟩
    cases hform with
    | one => exact absurd rfl hne
    | two h | three h | four h => simp [h]
  · rintro ⟨hone, hnone⟩
    cases h : lead a with
    | one => exact absurd h hone
    | none => exact absurd h hnone
    | two => exact ⟨_, _, .two h isTail_least rfl, List.cons_ne_nil _ _⟩
    | three lo hi =>
      exact ⟨_, _, .three h (within_lo_of_three h) isTail_least rfl, List.cons_ne_nil _ _⟩
    | four lo hi =>
      exact ⟨_, _, .four h (within_lo_of_four h) isTail_least isTail_least rfl,
        List.cons_ne_nil _ _⟩

theorem isStart_two_iff : IsStart [a, b] ↔
    ∃ lo hi, (lead a = .three lo hi ∨ lead a = .four lo hi) ∧ within lo hi b = true := by
  rw [isStart_iff]
  constructor
  · rintro ⟨c, more, hform, hne⟩
    cases hform with
    | two => exact absurd rfl hne
    | three h hb => exact ⟨_, _, .inl h, hb⟩
    | four h hb => exact ⟨_, _, .inr h, hb⟩
  · rintro ⟨lo, hi, h | h, hb⟩
    · exact ⟨_, _, .three h hb isTail_least rfl, List.cons_ne_nil _ _⟩
    · exact ⟨_, _, .four h hb isTail_least isTail_least rfl, List.cons_ne_nil _ _⟩

theorem isStart_three_iff : IsStart [a, b, d] ↔
    (∃ lo hi, lead a = .four lo hi ∧ within lo hi b = true) ∧ isTail d = true := by
  rw [isStart_iff]
  constructor
  · rintro ⟨c, more, hform, hne⟩
    cases hform with
    | three => exact absurd rfl hne
    | four h hb hd => exact ⟨⟨_, _, h, hb⟩, hd⟩
  · rintro ⟨⟨lo, hi, h, hb⟩, hd⟩
    exact ⟨_, _, .four h hb hd isTail_least rfl, List.cons_ne_nil _ _⟩

/-- No form is longer than four bytes. -/
theorem not_isStart_four : ¬IsStart [a, b, d, e] := by
  rw [isStart_iff]
  rintro ⟨c, more, hform, hne⟩
  cases hform
  exact hne rfl

/-! ## Pieces that are no characters -/

/-- A sequence that the end cuts off is the start of a character. -/
theorem isStart_of_pieceAt (h : pieceAt a as = .cut) : IsStart (a :: as) := by
  revert h
  fun_cases pieceAt a as with
  | case2 hlead => exact fun _ => isStart_one_iff.2 (by simp [hlead])
  | case5 lo hi hlead => exact fun _ => isStart_one_iff.2 (by simp [hlead])
  | case6 lo hi hlead b hb => exact fun _ => isStart_two_iff.2 ⟨lo, hi, .inl hlead, hb⟩
  | case10 lo hi hlead => exact fun _ => isStart_one_iff.2 (by simp [hlead])
  | case11 lo hi hlead b hb => exact fun _ => isStart_two_iff.2 ⟨lo, hi, .inr hlead, hb⟩
  | case12 lo hi hlead b hb d hd => exact fun _ => isStart_three_iff.2 ⟨⟨lo, hi, hlead, hb⟩, hd⟩
  | _ => rintro ⟨⟩

/-- A broken sequence is the start of a character up to the byte that breaks it, and a byte that
starts none is a broken sequence of its own. -/
theorem exists_of_pieceAt_broken (h : pieceAt a as = .broken n) : ∃ s b rest,
    a :: as = s ++ b :: rest ∧ IsStart s ∧ ¬IsStart (s ++ [b]) ∧ n = max 1 s.length := by
  revert h
  fun_cases pieceAt a as with
  | case4 hlead b bs hb =>
    rintro ⟨⟩
    exact ⟨[a], b, bs, rfl, isStart_one_iff.2 (by simp [hlead]),
      by simp [isStart_two_iff, hlead], rfl⟩
  | case8 lo hi hlead b hb d ds hd =>
    rintro ⟨⟩
    exact ⟨[a, b], d, ds, rfl, isStart_two_iff.2 ⟨lo, hi, .inl hlead, hb⟩,
      by simp [isStart_three_iff, hlead], rfl⟩
  | case9 lo hi hlead b bs hb =>
    rintro ⟨⟩
    exact ⟨[a], b, bs, rfl, isStart_one_iff.2 (by simp [hlead]),
      by simpa [isStart_two_iff, hlead] using hb, rfl⟩
  | case14 lo hi hlead b hb d hd e es he =>
    rintro ⟨⟩
    exact ⟨[a, b, d], e, es, rfl, isStart_three_iff.2 ⟨⟨lo, hi, hlead, hb⟩, hd⟩, not_isStart_four,
      rfl⟩
  | case15 lo hi hlead b hb d ds hd =>
    rintro ⟨⟩
    exact ⟨[a, b], d, ds, rfl, isStart_two_iff.2 ⟨lo, hi, .inr hlead, hb⟩,
      by simp [isStart_three_iff, hd], rfl⟩
  | case16 lo hi hlead b bs hb =>
    rintro ⟨⟩
    exact ⟨[a], b, bs, rfl, isStart_one_iff.2 (by simp [hlead]),
      by simpa [isStart_two_iff, hlead] using hb, rfl⟩
  | case17 =>
    next hlead =>
      rintro ⟨⟩
      exact ⟨[], a, as, rfl, isStart_nil, by simp [isStart_one_iff, hlead], rfl⟩
  | _ => rintro ⟨⟩

/-! ## The longest text -/

/-- Pieces that assemble to no text are the characters of one up to a piece that is no character,
and the fault is there. -/
theorem exists_of_assemble_error {index : Nat} {ps : List Piece} {f : Fault}
    (h : assemble index ps = .error f) : ∃ t p qs, ps = t.map .char ++ p :: qs ∧
      f.index = index + (encode t).length ∧
        (p = .cut ∧ f.length = none ∨ ∃ n, p = .broken n ∧ f.length = some n) := by
  induction ps generalizing index with
  | nil => cases h
  | cons p ps ih =>
    cases p with
    | char c =>
      rw [assemble] at h
      split at h
      · cases h
      · next f' hrest =>
        obtain rfl := Except.error.inj h
        obtain ⟨t, p, qs, rfl, hindex, hp⟩ := ih hrest
        refine ⟨c :: t, p, qs, rfl, ?_, hp⟩
        rw [hindex, encode_cons, List.length_append, String.length_utf8EncodeChar, Nat.add_assoc]
    | broken n =>
      obtain rfl := Except.error.inj h
      exact ⟨[], _, ps, rfl, rfl, .inr ⟨n, rfl, rfl⟩⟩
    | cut =>
      obtain rfl := Except.error.inj h
      exact ⟨[], _, ps, rfl, rfl, .inl ⟨rfl, rfl⟩⟩

/-- A text that is read before a piece that is no character starts with every text that is read
there. -/
theorem isPrefix_of_map_append {p : Piece} {ps qs : List Piece} (hp : ∀ c, p ≠ .char c) :
    ∀ {t t' : Text}, t'.map .char ++ ps = t.map .char ++ p :: qs → t' <+: t
  | _, [], _ => List.nil_prefix
  | [], c :: t', h => absurd (List.cons.inj h).1.symm (hp c)
  | d :: t, c :: t', h => by
    obtain ⟨hchar, hrest⟩ := List.cons.inj h
    rw [List.cons_prefix_cons]
    exact ⟨Piece.char.inj hchar, isPrefix_of_map_append hp hrest⟩

/-- A text before a piece that is no character is the longest that the bytes start with. -/
theorem isLongest_encode {t : Text} {p : Piece} {qs : List Piece} (h : pieces rest = p :: qs)
    (hp : ∀ c, p ≠ .char c) : IsLongest IsText (encode t) (encode t ++ rest) where
  isPrefix := List.prefix_append _ _
  holds := ⟨t, rfl⟩
  length_le := by
    rintro _ ⟨rest', hrest'⟩ ⟨t', rfl⟩
    have hpieces : t'.map Piece.char ++ pieces rest' = t.map .char ++ p :: qs := by
      rw [← pieces_encode_append, hrest', pieces_encode_append, h]
    obtain ⟨u, rfl⟩ := isPrefix_of_map_append hp hpieces
    rw [encode, encode, List.flatMap_append, List.length_append]
    exact Nat.le_add_right _ _

/-! ## The fault -/

/-- **Where bytes stop being text**: behind the longest text that they start with.  What is left is
the start of a character that the end cuts off, or it has a sequence that is broken, as long as the
longest start of a character there, and one byte at least. -/
inductive Stops (bs : Bytes) : Fault → Prop
  | incomplete {good rest : Bytes} (hbs : bs = good ++ rest) (hgood : IsLongest IsText good bs)
      (hrest : IsStart rest) (hne : rest ≠ []) : Stops bs ⟨good.length, none⟩
  | invalid {good rest start : Bytes} (hbs : bs = good ++ rest) (hgood : IsLongest IsText good bs)
      (hrest : ¬IsStart rest) (hstart : IsLongest IsStart start rest) :
      Stops bs ⟨good.length, some (max 1 start.length)⟩

/-- Bytes stop being text at one place at most, and in one way. -/
theorem Stops.unique {f f' : Fault} (h : Stops bs f) (h' : Stops bs f') : f = f' := by
  cases h with
  | incomplete hbs hgood hrest hne =>
    cases h' with
    | incomplete hbs' hgood' => rw [hgood.unique hgood']
    | invalid hbs' hgood' hrest' =>
      obtain rfl := hgood.unique hgood'
      exact absurd (List.append_cancel_left (hbs.symm.trans hbs') ▸ hrest) hrest'
  | invalid hbs hgood hrest hstart =>
    cases h' with
    | incomplete hbs' hgood' hrest' =>
      obtain rfl := hgood.unique hgood'
      exact absurd (List.append_cancel_left (hbs'.symm.trans hbs) ▸ hrest') hrest
    | invalid hbs' hgood' _ hstart' =>
      obtain rfl := hgood.unique hgood'
      obtain rfl := List.append_cancel_left (hbs.symm.trans hbs')
      rw [hstart.unique hstart']

/-- Bytes that are text do not stop being text. -/
theorem Stops.not_isText {f : Fault} (h : Stops bs f) : ¬IsText bs := by
  intro htext
  have hwhole {good rest : Bytes} (hbs : bs = good ++ rest) (hgood : IsLongest IsText good bs) :
      rest = [] := by
    have hle := hgood.length_le bs (List.prefix_refl bs) htext
    rw [hbs, List.length_append] at hle
    exact List.eq_nil_of_length_eq_zero (by omega)
  cases h with
  | incomplete hbs hgood _ hne => exact hne (hwhole hbs hgood)
  | invalid hbs hgood hrest => exact hrest (hwhole hbs hgood ▸ isStart_nil)

/-- The fault that decoding finds is where bytes stop being text. -/
theorem stops_of_decode {f : Fault} (h : decode bs = .error f) : Stops bs f := by
  obtain ⟨index, length⟩ := f
  obtain ⟨t, p, qs, hpieces, hindex, hp⟩ := exists_of_assemble_error h
  obtain ⟨rest, rfl, hrest⟩ := exists_of_pieces hpieces
  obtain rfl : index = (encode t).length := by simpa using hindex
  match rest, hrest with
  | a :: as, hrest =>
    obtain ⟨ps, hfirst⟩ := exists_pieces_cons a as
    have hpiece : pieceAt a as = p := (List.cons.inj (hfirst.symm.trans hrest)).1
    obtain ⟨rfl, rfl⟩ | ⟨n, rfl, rfl⟩ := hp
    · exact .incomplete rfl (isLongest_encode hrest fun c => nofun) (isStart_of_pieceAt hpiece)
        (List.cons_ne_nil a as)
    · obtain ⟨s, b, more, hbytes, hs, hnext, rfl⟩ := exists_of_pieceAt_broken hpiece
      rw [hbytes] at hrest ⊢
      refine .invalid rfl (isLongest_encode hrest fun c => nofun) (fun hstart => ?_)
        (hs.isLongest hnext)
      rw [List.append_cons] at hstart
      exact hnext hstart.of_append

/-- **Decoding finds exactly where bytes stop being text.** -/
theorem decode_eq_error_iff {f : Fault} : decode bs = .error f ↔ Stops bs f := by
  refine ⟨stops_of_decode, fun h => ?_⟩
  cases hdecode : decode bs with
  | ok t => exact absurd ⟨t, decode_eq_ok_iff_encode.1 hdecode⟩ h.not_isText
  | error f' => rw [(stops_of_decode hdecode).unique h]

/-- An overlong form and a surrogate break at their first byte, a sequence without its last byte is
broken by what follows it, and at the end it is cut off. -/
example : decode [0x61, 0xc0, 0x80] = .error ⟨1, some 1⟩ ∧
    decode [0xed, 0xa0, 0x80] = .error ⟨0, some 1⟩ ∧
    decode [0xf0, 0x9f, 0x98, 0x61] = .error ⟨0, some 3⟩ ∧
    decode [0x61, 0xf0, 0x9f, 0x98] = .error ⟨1, none⟩ :=
  ⟨rfl, rfl, rfl, rfl⟩

end Utf8

end SqlSanity
