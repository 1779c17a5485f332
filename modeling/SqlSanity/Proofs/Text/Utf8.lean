import SqlSanity.Text.Utf8

/-!
# Proofs/Text/Utf8 — decoding reads back exactly the UTF-8 form of a text

A first byte and the bytes after it make a character exactly when they start with the form of that
character, one case for each length of a form.  So bytes decode to a text exactly when they are its
form, and no bytes decode to two texts.

* `Utf8.IsForm` — the forms of characters, one kind for each length;
* `Utf8.exists_of_pieceAt`, `Utf8.pieceAt_of_eq` — a character is read exactly where its form is;
* `Utf8.decode_eq_ok_iff_encode` — bytes decode to a text exactly when they are its form.
-/

namespace SqlSanity

namespace Utf8

/-! ## Bytes and characters as numbers -/

theorem beq_iff_toNat {a b : UInt8} : (a == b) = true ↔ a.toNat = b.toNat := by
  rw [beq_iff_eq, UInt8.toNat_inj]

theorem within_iff {lo hi b : UInt8} :
    within lo hi b = true ↔ lo.toNat ≤ b.toNat ∧ b.toNat ≤ hi.toNat := by
  simp [within, UInt8.le_iff_toNat_le]

theorem isTail_iff {b : UInt8} : isTail b = true ↔ 0x80 ≤ b.toNat ∧ b.toNat ≤ 0xbf := within_iff

theorem lead_eq_one_iff {a : UInt8} : lead a = .one ↔ a.toNat ≤ 0x7f := by
  simp only [lead, UInt8.le_iff_toNat_le, Bool.and_eq_true, decide_eq_true_eq, beq_iff_toNat,
    UInt8.reduceToNat]
  grind

theorem lead_eq_two_iff {a : UInt8} : lead a = .two ↔ 0xc2 ≤ a.toNat ∧ a.toNat ≤ 0xdf := by
  simp only [lead, UInt8.le_iff_toNat_le, Bool.and_eq_true, decide_eq_true_eq, beq_iff_toNat,
    UInt8.reduceToNat]
  grind

theorem lead_eq_three_iff {a lo hi : UInt8} : lead a = .three lo hi ↔
    (0xe0 ≤ a.toNat ∧ a.toNat ≤ 0xef) ∧ lo = (if a.toNat = 0xe0 then 0xa0 else 0x80) ∧
      hi = if a.toNat = 0xed then 0x9f else 0xbf := by
  simp only [lead, UInt8.le_iff_toNat_le, Bool.and_eq_true, decide_eq_true_eq, beq_iff_toNat,
    UInt8.reduceToNat]
  grind

theorem lead_eq_four_iff {a lo hi : UInt8} : lead a = .four lo hi ↔
    (0xf0 ≤ a.toNat ∧ a.toNat ≤ 0xf4) ∧ lo = (if a.toNat = 0xf0 then 0x90 else 0x80) ∧
      hi = if a.toNat = 0xf4 then 0x8f else 0xbf := by
  simp only [lead, UInt8.le_iff_toNat_le, Bool.and_eq_true, decide_eq_true_eq, beq_iff_toNat,
    UInt8.reduceToNat]
  grind

/-- A byte is a number modulo 256. -/
theorem ofNat_eq_iff {n : Nat} {a : UInt8} : UInt8.ofNat n = a ↔ n % 256 = a.toNat := by
  rw [← UInt8.toNat_inj, UInt8.toNat_ofNat']

/-- A character is the number that it stands for, surrogates left out. -/
theorem eq_ofNat_iff {c : Char} {n : Nat} (h : n.isValidChar) : c = Char.ofNat n ↔ c.toNat = n := by
  constructor
  · rintro rfl
    rw [Char.ofNat, dif_pos h]
    rfl
  · rintro rfl
    exact (Char.ofNat_toNat c).symm

/-! ## The form of a character, by its length -/

/-- The form of a character, written with numbers. -/
theorem encodeChar_eq (c : Char) : String.utf8EncodeChar c =
    if c.toNat ≤ 0x7f then [.ofNat c.toNat]
    else if c.toNat ≤ 0x7ff then
      [.ofNat (c.toNat / 64 % 0x20 + 0xc0), .ofNat (c.toNat % 0x40 + 0x80)]
    else if c.toNat ≤ 0xffff then
      [.ofNat (c.toNat / 4096 % 0x10 + 0xe0), .ofNat (c.toNat / 64 % 0x40 + 0x80),
        .ofNat (c.toNat % 0x40 + 0x80)]
    else
      [.ofNat (c.toNat / 262144 % 0x08 + 0xf0), .ofNat (c.toNat / 4096 % 0x40 + 0x80),
        .ofNat (c.toNat / 64 % 0x40 + 0x80), .ofNat (c.toNat % 0x40 + 0x80)] := rfl

theorem toNat_valid (c : Char) : c.toNat < 0xd800 ∨ 0xdfff < c.toNat ∧ c.toNat < 0x110000 := c.valid

variable {a b d e : UInt8} {c : Char}

theorem encodeChar_eq_one_iff :
    String.utf8EncodeChar c = [a] ↔ lead a = .one ∧ c = Char.ofNat a.toNat := by
  rw [lead_eq_one_iff, encodeChar_eq]
  constructor
  · intro h
    split at h
    · simp only [List.cons.injEq, ofNat_eq_iff, and_true] at h
      exact ⟨by omega, (eq_ofNat_iff (.inl (by omega))).2 (by omega)⟩
    · split at h
      · cases h
      · split at h <;> cases h
  · rintro ⟨ha, h⟩
    rw [eq_ofNat_iff (.inl (by omega))] at h
    rw [if_pos (by omega)]
    simp only [List.cons.injEq, ofNat_eq_iff, and_true]
    omega

theorem encodeChar_eq_two_iff : String.utf8EncodeChar c = [a, b] ↔
    lead a = .two ∧ isTail b = true ∧ c = char₂ a b := by
  rw [lead_eq_two_iff, isTail_iff, encodeChar_eq, char₂]
  constructor
  · intro h
    split at h
    · cases h
    · split at h
      · simp only [List.cons.injEq, ofNat_eq_iff, and_true] at h
        exact ⟨by omega, by omega, (eq_ofNat_iff (.inl (by omega))).2 (by omega)⟩
      · split at h <;> cases h
  · rintro ⟨ha, hb, h⟩
    rw [eq_ofNat_iff (.inl (by omega))] at h
    rw [if_neg (by omega), if_pos (by omega)]
    simp only [List.cons.injEq, ofNat_eq_iff, and_true]
    omega

/-- The bounds on the second of three bytes leave out overlong forms and surrogates. -/
theorem three_bounds : (∃ lo hi, lead a = .three lo hi ∧ within lo hi b = true) ↔
    (0xe0 ≤ a.toNat ∧ a.toNat ≤ 0xef) ∧ (0x80 ≤ b.toNat ∧ b.toNat ≤ 0xbf) ∧
      (a.toNat = 0xe0 → 0xa0 ≤ b.toNat) ∧ (a.toNat = 0xed → b.toNat ≤ 0x9f) := by
  simp only [lead_eq_three_iff, within_iff]
  constructor
  · rintro ⟨lo, hi, ⟨ha, rfl, rfl⟩, hb⟩
    split at hb <;> split at hb <;> simp only [UInt8.reduceToNat] at hb <;> omega
  · rintro ⟨ha, hb, hlo, hhi⟩
    refine ⟨_, _, ⟨ha, rfl, rfl⟩, ?_⟩
    split <;> split <;> simp only [UInt8.reduceToNat] <;> omega

/-- The bounds on the second of four bytes leave out overlong forms and what is above U+10FFFF. -/
theorem four_bounds : (∃ lo hi, lead a = .four lo hi ∧ within lo hi b = true) ↔
    (0xf0 ≤ a.toNat ∧ a.toNat ≤ 0xf4) ∧ (0x80 ≤ b.toNat ∧ b.toNat ≤ 0xbf) ∧
      (a.toNat = 0xf0 → 0x90 ≤ b.toNat) ∧ (a.toNat = 0xf4 → b.toNat ≤ 0x8f) := by
  simp only [lead_eq_four_iff, within_iff]
  constructor
  · rintro ⟨lo, hi, ⟨ha, rfl, rfl⟩, hb⟩
    split at hb <;> split at hb <;> simp only [UInt8.reduceToNat] at hb <;> omega
  · rintro ⟨ha, hb, hlo, hhi⟩
    refine ⟨_, _, ⟨ha, rfl, rfl⟩, ?_⟩
    split <;> split <;> simp only [UInt8.reduceToNat] <;> omega

theorem encodeChar_eq_three_iff : String.utf8EncodeChar c = [a, b, d] ↔
    (∃ lo hi, lead a = .three lo hi ∧ within lo hi b = true) ∧ isTail d = true ∧
      c = char₃ a b d := by
  have hc := toNat_valid c
  rw [three_bounds, isTail_iff, encodeChar_eq, char₃]
  constructor
  · intro h
    split at h
    · cases h
    · split at h
      · cases h
      · split at h
        · simp only [List.cons.injEq, ofNat_eq_iff, and_true] at h
          have hvalue : ((a.toNat - 0xe0) * 64 + (b.toNat - 0x80)) * 64 + (d.toNat - 0x80)
              = c.toNat := by omega
          refine ⟨by omega, by omega, (eq_ofNat_iff ?_).2 hvalue.symm⟩
          rw [hvalue]
          exact c.valid
        · cases h
  · rintro ⟨hab, hd, h⟩
    have hvalid :
        (((a.toNat - 0xe0) * 64 + (b.toNat - 0x80)) * 64 + (d.toNat - 0x80)).isValidChar := by
      rw [Nat.isValidChar]
      omega
    rw [eq_ofNat_iff hvalid] at h
    rw [if_neg (by omega), if_neg (by omega), if_pos (by omega)]
    simp only [List.cons.injEq, ofNat_eq_iff, and_true]
    omega

theorem encodeChar_eq_four_iff : String.utf8EncodeChar c = [a, b, d, e] ↔
    (∃ lo hi, lead a = .four lo hi ∧ within lo hi b = true) ∧ isTail d = true ∧ isTail e = true ∧
      c = char₄ a b d e := by
  have hc := toNat_valid c
  rw [four_bounds, isTail_iff, isTail_iff, encodeChar_eq, char₄]
  constructor
  · intro h
    split at h
    · cases h
    · split at h
      · cases h
      · split at h
        · cases h
        · simp only [List.cons.injEq, ofNat_eq_iff, and_true] at h
          have hvalue : (((a.toNat - 0xf0) * 64 + (b.toNat - 0x80)) * 64 + (d.toNat - 0x80)) * 64
              + (e.toNat - 0x80) = c.toNat := by omega
          refine ⟨by omega, by omega, by omega, (eq_ofNat_iff ?_).2 hvalue.symm⟩
          rw [hvalue]
          exact c.valid
  · rintro ⟨hab, hd, he, h⟩
    have hvalid : ((((a.toNat - 0xf0) * 64 + (b.toNat - 0x80)) * 64 + (d.toNat - 0x80)) * 64
        + (e.toNat - 0x80)).isValidChar := by
      rw [Nat.isValidChar]
      omega
    rw [eq_ofNat_iff hvalid] at h
    rw [if_neg (by omega), if_neg (by omega), if_neg (by omega)]
    simp only [List.cons.injEq, ofNat_eq_iff, and_true]
    omega

/-- **What the form of a character can be**: what its first byte calls for, and the character. -/
inductive IsForm (c : Char) : Bytes → Prop
  | one {a : UInt8} (hlead : lead a = .one) (hc : c = Char.ofNat a.toNat) : IsForm c [a]
  | two {a b : UInt8} (hlead : lead a = .two) (hb : isTail b = true) (hc : c = char₂ a b) :
      IsForm c [a, b]
  | three {a b d lo hi : UInt8} (hlead : lead a = .three lo hi) (hb : within lo hi b = true)
      (hd : isTail d = true) (hc : c = char₃ a b d) : IsForm c [a, b, d]
  | four {a b d e lo hi : UInt8} (hlead : lead a = .four lo hi) (hb : within lo hi b = true)
      (hd : isTail d = true) (he : isTail e = true) (hc : c = char₄ a b d e) :
      IsForm c [a, b, d, e]

/-- The form of a character is of one of these kinds, and there are no others. -/
theorem encodeChar_eq_iff {form : Bytes} : String.utf8EncodeChar c = form ↔ IsForm c form := by
  constructor
  · rintro rfl
    rcases c.utf8Size_eq with hsize | hsize | hsize | hsize
    · have hform := String.utf8EncodeChar_eq_singleton hsize
      obtain ⟨hlead, hc⟩ := encodeChar_eq_one_iff.1 hform
      rw [hform]
      exact .one hlead hc
    · have hform := String.utf8EncodeChar_eq_cons_cons hsize
      obtain ⟨hlead, hb, hc⟩ := encodeChar_eq_two_iff.1 hform
      rw [hform]
      exact .two hlead hb hc
    · have hform := String.utf8EncodeChar_eq_cons_cons_cons hsize
      obtain ⟨⟨lo, hi, hlead, hb⟩, hd, hc⟩ := encodeChar_eq_three_iff.1 hform
      rw [hform]
      exact .three hlead hb hd hc
    · have hform := String.utf8EncodeChar_eq_cons_cons_cons_cons hsize
      obtain ⟨⟨lo, hi, hlead, hb⟩, hd, he, hc⟩ := encodeChar_eq_four_iff.1 hform
      rw [hform]
      exact .four hlead hb hd he hc
  · intro h
    cases h with
    | one hlead hc => exact encodeChar_eq_one_iff.2 ⟨hlead, hc⟩
    | two hlead hb hc => exact encodeChar_eq_two_iff.2 ⟨hlead, hb, hc⟩
    | three hlead hb hd hc => exact encodeChar_eq_three_iff.2 ⟨⟨_, _, hlead, hb⟩, hd, hc⟩
    | four hlead hb hd he hc => exact encodeChar_eq_four_iff.2 ⟨⟨_, _, hlead, hb⟩, hd, he, hc⟩

/-! ## Pieces -/

/-- A character is read off some bytes only where its form is. -/
theorem exists_of_pieceAt {as : Bytes} (h : pieceAt a as = .char c) :
    ∃ rest, a :: as = String.utf8EncodeChar c ++ rest := by
  have hform {form rest : Bytes} (hform : IsForm c form) :
      form ++ rest = String.utf8EncodeChar c ++ rest := by
    rw [encodeChar_eq_iff.2 hform]
  revert h
  fun_cases pieceAt a as with
  | case1 =>
    next hlead =>
      intro h
      exact ⟨as, hform (.one hlead (Piece.char.inj h).symm)⟩
  | case3 hlead b bs hb =>
    intro h
    exact ⟨bs, hform (.two hlead hb (Piece.char.inj h).symm)⟩
  | case7 lo hi hlead b hb d ds hd =>
    intro h
    exact ⟨ds, hform (.three hlead hb hd (Piece.char.inj h).symm)⟩
  | case13 lo hi hlead b hb d hd e es he =>
    intro h
    exact ⟨es, hform (.four hlead hb hd he (Piece.char.inj h).symm)⟩
  | _ => rintro ⟨⟩

/-- Where the form of a character is, that character is read. -/
theorem pieceAt_of_eq {as rest : Bytes} (h : a :: as = String.utf8EncodeChar c ++ rest) :
    pieceAt a as = .char c := by
  generalize hform : String.utf8EncodeChar c = form at h
  cases encodeChar_eq_iff.1 hform with
  | @one a' hlead hc =>
    obtain ⟨rfl, rfl⟩ : a = a' ∧ as = rest := List.cons.inj h
    simp only [pieceAt, hlead, hc]
  | @two a' b hlead hb hc =>
    obtain ⟨rfl, rfl⟩ : a = a' ∧ as = b :: rest := List.cons.inj h
    simp only [pieceAt, hlead, hb, hc, if_true]
  | @three a' b d lo hi hlead hb hd hc =>
    obtain ⟨rfl, rfl⟩ : a = a' ∧ as = b :: d :: rest := List.cons.inj h
    simp only [pieceAt, hlead, hb, hd, hc, if_true]
  | @four a' b d e lo hi hlead hb hd he hc =>
    obtain ⟨rfl, rfl⟩ : a = a' ∧ as = b :: d :: e :: rest := List.cons.inj h
    simp only [pieceAt, hlead, hb, hd, he, hc, if_true]

/-! ## Texts -/

theorem drop_of_eq {as rest : Bytes} (h : a :: as = String.utf8EncodeChar c ++ rest) :
    as.drop (c.utf8Size - 1) = rest := by
  have hdrop : (a :: as).drop c.utf8Size = rest := by
    rw [h, ← String.length_utf8EncodeChar, List.drop_left]
  rwa [← Nat.sub_add_cancel c.utf8Size_pos, List.drop_succ_cons] at hdrop

theorem pieces_of_pieceAt {as : Bytes} (h : pieceAt a as = .char c) :
    pieces (a :: as) = .char c :: pieces (as.drop (c.utf8Size - 1)) := by
  rw [← piecesFrom_eq_drop, pieces, piecesFrom]
  simp only [h]

theorem encode_cons (c : Char) (t : Text) : encode (c :: t) = String.utf8EncodeChar c ++ encode t :=
  List.flatMap_cons

/-- What starts with the form of a text has its characters for its first pieces. -/
theorem pieces_encode_append : ∀ (t : Text) (rest : Bytes),
    pieces (encode t ++ rest) = t.map .char ++ pieces rest
  | [], _ => rfl
  | c :: t, rest => by
    obtain ⟨a, as, hbytes⟩ : ∃ a as, a :: as = String.utf8EncodeChar c ++ (encode t ++ rest) := by
      obtain ⟨a, as, hform⟩ := List.exists_cons_of_ne_nil (String.utf8EncodeChar_ne_nil (c := c))
      exact ⟨a, as ++ (encode t ++ rest), by rw [hform, List.cons_append]⟩
    rw [encode_cons, List.append_assoc, ← hbytes, pieces_of_pieceAt (pieceAt_of_eq hbytes),
      drop_of_eq hbytes, pieces_encode_append t rest, List.map_cons, List.cons_append]

/-- Bytes whose first pieces are the characters of a text start with its form. -/
theorem exists_of_pieces {ps : List Piece} : ∀ {t : Text} {bs : Bytes},
    pieces bs = t.map .char ++ ps → ∃ rest, bs = encode t ++ rest ∧ pieces rest = ps
  | [], bs, h => ⟨bs, rfl, h⟩
  | c :: t, [], h => nomatch h
  | c :: t, a :: as, h => by
    cases hpiece : pieceAt a as with
    | char d =>
      rw [pieces_of_pieceAt hpiece, List.map_cons, List.cons_append, List.cons.injEq,
        Piece.char.injEq] at h
      obtain ⟨rfl, hrest⟩ := h
      obtain ⟨rest, hbytes⟩ := exists_of_pieceAt hpiece
      rw [drop_of_eq hbytes] at hrest
      obtain ⟨rest, rfl, hps⟩ := exists_of_pieces hrest
      exact ⟨rest, by rw [hbytes, encode_cons, List.append_assoc], hps⟩
    | broken n => simp [pieces, piecesFrom, hpiece] at h
    | cut => simp [pieces, piecesFrom, hpiece] at h

/-- Some bytes have a first piece. -/
theorem exists_pieces_cons (a : UInt8) (as : Bytes) :
    ∃ ps, pieces (a :: as) = pieceAt a as :: ps := by
  rw [pieces, piecesFrom]
  split
  · next h => exact ⟨_, by rw [h]⟩
  · next h => exact ⟨_, by rw [h]⟩
  · next h => exact ⟨_, by rw [h]⟩

theorem pieces_eq_nil_iff {bs : Bytes} : pieces bs = [] ↔ bs = [] := by
  cases bs with
  | nil => exact iff_of_true rfl rfl
  | cons a as =>
    obtain ⟨ps, hps⟩ := exists_pieces_cons a as
    simp [hps]

/-- **Bytes decode to a text exactly when they are its UTF-8 form.** -/
theorem decode_eq_ok_iff_encode {bs : Bytes} {t : Text} : decode bs = .ok t ↔ bs = encode t := by
  rw [decode_eq_ok_iff]
  constructor
  · intro h
    obtain ⟨rest, rfl, hrest⟩ := exists_of_pieces (h.trans (List.append_nil _).symm)
    rw [pieces_eq_nil_iff.1 hrest, List.append_nil]
  · rintro rfl
    have hpieces := pieces_encode_append t []
    rwa [List.append_nil, pieces_eq_nil_iff.2 rfl, List.append_nil] at hpieces

theorem decode?_eq_some_iff {bs : Bytes} {t : Text} : decode? bs = some t ↔ bs = encode t := by
  rw [← decode_eq_ok_iff_encode, decode?]
  cases decode bs <;> simp [Except.toOption]

/-- **No two texts have one form.** -/
theorem encode_injective {t t' : Text} (h : encode t = encode t') : t = t' := by
  have ht : decode (encode t) = .ok t := decode_eq_ok_iff_encode.2 rfl
  rw [h, decode_eq_ok_iff_encode.2 rfl] at ht
  exact (Except.ok.inj ht).symm

end Utf8

end SqlSanity
