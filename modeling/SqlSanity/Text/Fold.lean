import SqlSanity.Text.Basic

/-!
# Text/Fold — letters up to case

Keywords are ASCII words read in either case.  Two characters outside ASCII also fold to ASCII
letters, the KELVIN SIGN U+212A to `k` and the long s U+017F to `s`, and they count as those.

* `Text.strip?_eq_some_iff` — stripping a keyword takes exactly its letters, up to case.
-/

namespace SqlSanity.Text

/-- The small ASCII letter a character stands for, itself when it stands for none. -/
def foldChar (c : Char) : Char :=
  if c.toNat == 0x212a then 'k' else if c.toNat == 0x17f then 's' else c.toLower

/-- The text after `k`, which it must start with up to case; `k` is in small letters. -/
def strip? : (k : List Char) → Text → Option Text
  | [], t => some t
  | _ :: _, [] => none
  | a :: k, c :: t => if foldChar c == a then strip? k t else none

/-- **Stripping a keyword takes exactly its letters, up to case.** -/
theorem strip?_eq_some_iff {k : List Char} {t r : Text} :
    strip? k t = some r ↔ ∃ u, t = u ++ r ∧ u.map foldChar = k := by
  induction k generalizing t with
  | nil => simp [strip?, eq_comm]
  | cons a k ih =>
    cases t with
    | nil => simp [strip?]
    | cons c t =>
      rw [strip?]
      constructor
      · intro h
        split at h
        · next hc =>
          obtain ⟨u, rfl, rfl⟩ := ih.1 h
          exact ⟨c :: u, rfl, by simpa using hc⟩
        · simp at h
      · rintro ⟨u, hu, hk⟩
        cases u with
        | nil => simp at hk
        | cons d u =>
          simp only [List.cons_append, List.cons.injEq, List.map_cons] at hu hk
          obtain ⟨rfl, rfl⟩ := hu
          simpa [hk.1] using ih.2 ⟨u, rfl, hk.2⟩

end SqlSanity.Text
