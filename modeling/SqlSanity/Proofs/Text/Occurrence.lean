import Mathlib.Data.Nat.Count
import SqlSanity.Text.Occurrence

/-!
# Proofs/Text/Occurrence — a pattern occurs exactly where it matches

The search for a pattern leaves out the matches that overlap an earlier one, so the list of
occurrences says more than where the pattern matches.  Whether there is any occurrence does not
depend on that: the leftmost match is never left out.  And where no match overlaps another that
overlaps a third, the matches that are left out are just those that start inside another one.

* `Text.contains_iff` — a pattern occurs in a text exactly when it matches at some place of it;
* `Text.contains_mono` — what matches wherever another pattern does occurs whenever it does;
* `Text.scans_iff` — a search does not depend on the way of matching;
* `Text.countP_occurrencesFrom` — the matches of a search, counted place by place.
-/

namespace SqlSanity.Text

/-- A word character stands at the end of `t`, or stood before it when `t` is empty. -/
def afterWord (before : Bool) (t : Text) : Bool := t.foldl (fun _ c => isWord c) before

/-- A text that ends in a word character. -/
def endsWord (t : Text) : Bool := afterWord false t

@[simp] theorem afterWord_nil (b : Bool) : afterWord b [] = b := rfl

@[simp] theorem afterWord_cons (b : Bool) (c : Char) (t : Text) :
    afterWord b (c :: t) = afterWord (isWord c) t := rfl

/-- Only the last character matters. -/
@[simp] theorem endsWord_concat (t : Text) (c : Char) : endsWord (t ++ [c]) = isWord c := by
  simp [endsWord, afterWord]

variable {α β : Type} {p : Pattern α} {q : Pattern β}

/-- The search from a place finds something exactly when the pattern matches there or later. -/
theorem occurrencesFrom_ne_nil_iff : ∀ {b : Bool} {t : Text},
    occurrencesFrom p 0 b t ≠ [] ↔
      ∃ pre c post, t = pre ++ c :: post ∧ (p (afterWord b pre) (c :: post)).isSome = true
  | _, [] => by simp
  | b, c :: t => by
    cases hp : p b (c :: t) with
    | some m =>
      rw [occurrences_cons_of_some (a := m.1) (n := m.2) hp]
      refine ⟨fun _ => ⟨[], c, t, rfl, ?_⟩, fun _ => List.cons_ne_nil _ _⟩
      rw [afterWord_nil, hp, Option.isSome_some]
    | none =>
      rw [occurrences_cons_of_none hp, occurrencesFrom_ne_nil_iff (t := t)]
      constructor
      · rintro ⟨pre, d, post, rfl, h⟩
        exact ⟨c :: pre, d, post, rfl, h⟩
      · rintro ⟨pre, d, post, ht, h⟩
        cases pre with
        | nil =>
          obtain ⟨rfl, rfl⟩ := List.cons.inj ht
          rw [afterWord_nil, hp] at h
          exact absurd h Bool.false_ne_true
        | cons e pre =>
          obtain ⟨rfl, rfl⟩ := List.cons.inj ht
          exact ⟨pre, d, post, rfl, h⟩

/-- **A pattern occurs in a text exactly when it matches at some place of it.** -/
theorem contains_iff {t : Text} :
    contains p t = true ↔
      ∃ pre c post, t = pre ++ c :: post ∧ (p (endsWord pre) (c :: post)).isSome = true := by
  rw [contains, Bool.not_eq_true', List.isEmpty_eq_false_iff]
  exact occurrencesFrom_ne_nil_iff

/-- What matches wherever another pattern does occurs whenever it does. -/
theorem contains_mono (h : ∀ b t, (p b t).isSome = true → (q b t).isSome = true) {t : Text}
    (ht : contains p t = true) : contains q t = true := by
  obtain ⟨pre, c, post, rfl, hm⟩ := contains_iff.1 ht
  exact contains_iff.2 ⟨pre, c, post, rfl, h _ _ hm⟩

/-! ## Other ways to search -/

/-- A search from the left with any way of matching: at each place one of the matches there is
taken, and the search goes on where it ends, or one character further on if there is none. -/
inductive Scans (reads : Bool → Text → α → Nat → Prop) : Bool → Text → List α → Prop
  | done (b : Bool) : Scans reads b [] []
  | miss {b : Bool} {c : Char} {t : Text} {found : List α}
      (none : ∀ a n, ¬reads b (c :: t) a n) (rest : Scans reads (isWord c) t found) :
      Scans reads b (c :: t) found
  | hit {b : Bool} {u t : Text} {a : α} {found : List α} (here : reads b (u ++ t) a u.length)
      (rest : Scans reads (afterWord b u) t found) : Scans reads b (u ++ t) (a :: found)

/-- A search skips what it is told to skip. -/
theorem occurrencesFrom_skip : ∀ {b : Bool} {u t : Text},
    occurrencesFrom p u.length b (u ++ t) = occurrencesFrom p 0 (afterWord b u) t
  | _, [], _ => rfl
  | _, c :: u, t => by
    rw [List.length_cons, List.cons_append, occurrencesFrom, occurrencesFrom_skip, afterWord_cons]

/-- Every match takes up some of the text, and no more than there is. -/
def Progresses (p : Pattern α) : Prop :=
  ∀ (b : Bool) (t : Text) (a : α) (n : Nat), p b t = some (a, n) → 0 < n ∧ n ≤ t.length

/-- Where a pattern matches that makes progress, the search takes the match and goes on behind
it. -/
theorem occurrencesFrom_append (hp : Progresses p) {b : Bool} {u t : Text} {a : α}
    (h : p b (u ++ t) = some (a, u.length)) :
    occurrencesFrom p 0 b (u ++ t) = a :: occurrencesFrom p 0 (afterWord b u) t := by
  cases u with
  | nil => exact absurd (hp _ _ _ _ h).1 (Nat.lt_irrefl 0)
  | cons c u =>
    rw [List.cons_append] at h ⊢
    rw [occurrences_cons_of_some h, List.length_cons, Nat.add_sub_cancel, occurrencesFrom_skip,
      afterWord_cons]

/-- **A search does not depend on the way of matching**, when there is one match at a place at most
and every match makes progress. -/
theorem scans_iff (reads : Bool → Text → α → Nat → Prop)
    (hm : ∀ {b t a n}, reads b t a n ↔ p b t = some (a, n)) (hp : Progresses p) :
    ∀ {b : Bool} {t : Text} {found : List α},
      Scans reads b t found ↔ found = occurrencesFrom p 0 b t := by
  intro b t found
  constructor
  · intro h
    induction h with
    | done b => exact (occurrencesFrom_nil 0 b).symm
    | @miss b c t found hnone _ ih =>
      have hmatch : p b (c :: t) = none :=
        Option.eq_none_iff_forall_ne_some.2 fun m hsome => hnone m.1 m.2 (hm.2 hsome)
      rw [occurrences_cons_of_none hmatch]
      exact ih
    | hit hhere _ ih => rw [occurrencesFrom_append hp (hm.1 hhere), ← ih]
  · rintro rfl
    -- On the length of the text: a match may take up any part of it.
    induction hlen : t.length using Nat.strongRecOn generalizing b t with
    | _ len ih =>
      cases t with
      | nil =>
        rw [occurrencesFrom_nil]
        exact .done b
      | cons c t =>
        cases hmatch : p b (c :: t) with
        | none =>
          rw [occurrences_cons_of_none hmatch]
          have hlt : t.length < len := by
            rw [← hlen]
            exact Nat.lt_succ_self _
          refine .miss (fun a n h => ?_) (ih t.length hlt rfl)
          rw [hm.1 h] at hmatch
          cases hmatch
        | some m =>
          obtain ⟨a, n⟩ := m
          obtain ⟨hpos, hle⟩ := hp _ _ _ _ hmatch
          have hu : ((c :: t).take n).length = n := List.length_take_of_le hle
          have hsplit : p b ((c :: t).take n ++ (c :: t).drop n)
              = some (a, ((c :: t).take n).length) := by
            rw [List.take_append_drop, hu, hmatch]
          have hshort : ((c :: t).drop n).length < len := by
            rw [← hlen, List.length_drop]
            omega
          have hscan := Scans.hit (hm.2 hsplit) (ih _ hshort rfl)
          rwa [← occurrencesFrom_append hp hsplit, List.take_append_drop] at hscan

/-! ## Matches inside other matches -/

/-- The place after `pre` lies inside a match that starts earlier. -/
def Covered (p : Pattern α) (pre t : Text) : Prop :=
  ∃ before mid a n, pre = before ++ mid ∧ mid ≠ [] ∧
    p (endsWord before) (mid ++ t) = some (a, n) ∧ mid.length < n

/-- The pattern matches at the place after `pre`, with a value that counts, and the place lies
inside no earlier match. -/
def MatchesFreely (p : Pattern α) (counts : α → Bool) (pre t : Text) : Prop :=
  (∃ a n, p (endsWord pre) t = some (a, n) ∧ counts a = true) ∧ ¬Covered p pre t

/-- A match that holds the start of another match lies inside no match itself. -/
def OverlapsInPairs (p : Pattern α) : Prop :=
  ∀ (before mid t : Text) (a : α) (n : Nat), mid ≠ [] →
    p (endsWord before) (mid ++ t) = some (a, n) → mid.length < n →
    (p (endsWord (before ++ mid)) t).isSome = true → ¬Covered p before (mid ++ t)

/-- What holds of a search that has read `pre`, with `skip` more characters of its last match to
skip: no free match so far goes on behind these, and they belong to a match if there are any. -/
structure Searched (p : Pattern α) (pre : Text) (skip : Nat) (t : Text) : Prop where
  bound : ∀ {before mid : Text} {a : α} {n : Nat}, pre = before ++ mid → mid ≠ [] →
    p (endsWord before) (mid ++ t) = some (a, n) → ¬Covered p before (mid ++ t) →
      n ≤ mid.length + skip
  reach : 0 < skip → ∃ before mid a, pre = before ++ mid ∧ mid ≠ [] ∧
    p (endsWord before) (mid ++ t) = some (a, mid.length + skip)

namespace Searched

variable {pre t : Text} {c : Char} {skip n : Nat} {a : α}

theorem start (p : Pattern α) (t : Text) : Searched p [] 0 t where
  bound h hmid := absurd (List.append_eq_nil_iff.1 h.symm).2 hmid
  reach h := absurd h (Nat.lt_irrefl 0)

/-- What is skipped is covered. -/
theorem covered (h : Searched p pre skip t) (hskip : 0 < skip) : Covered p pre t := by
  obtain ⟨before, mid, a, hpre, hmid, hmatch⟩ := h.reach hskip
  exact ⟨before, mid, a, _, hpre, hmid, hmatch, Nat.lt_add_of_pos_right hskip⟩

/-- Where nothing is skipped and the pattern matches, the match is free. -/
theorem not_covered (hp : OverlapsInPairs p) (h : Searched p pre 0 t)
    (hmatch : (p (endsWord pre) t).isSome = true) : ¬Covered p pre t := by
  rintro ⟨before, mid, a, n, rfl, hmid, hbefore, hlt⟩
  have hle : n ≤ mid.length + 0 := h.bound rfl hmid hbefore (hp _ _ _ _ _ hmid hbefore hlt hmatch)
  omega

/-- **What a search knows one character further on**: of the matches before, what it knew, and of a
match at the character itself, that it does not go on behind what is skipped now. -/
theorem step {skip' : Nat} (h : Searched p pre skip (c :: t)) (hskip : skip - 1 ≤ skip')
    (hhere : ∀ a n, p (endsWord pre) (c :: t) = some (a, n) → ¬Covered p pre (c :: t) →
      n ≤ skip' + 1)
    (hreach : 0 < skip' → ∃ before mid a, pre ++ [c] = before ++ mid ∧ mid ≠ [] ∧
      p (endsWord before) (mid ++ t) = some (a, mid.length + skip')) :
    Searched p (pre ++ [c]) skip' t where
  bound {before mid a n} hpre hmid hmatch hfree := by
    obtain ⟨mid, rfl⟩ : ∃ mid', mid = mid' ++ [c] := by
      have hlast := congrArg List.getLast? hpre
      rw [List.getLast?_concat, List.getLast?_append_of_ne_nil _ hmid] at hlast
      exact List.getLast?_eq_some_iff.1 hlast.symm
    rw [← List.append_assoc, List.append_left_inj] at hpre
    rw [List.append_assoc, List.singleton_append] at hmatch hfree
    rw [List.length_append, List.length_singleton]
    by_cases hmid' : mid = []
    · subst hmid' hpre
      rw [List.append_nil] at hhere
      have := hhere a n hmatch hfree
      simp only [List.length_nil]
      omega
    · have := h.bound hpre hmid' hmatch hfree
      omega
  reach := hreach

/-- A character of the last match is skipped. -/
theorem skipped (h : Searched p pre (skip + 1) (c :: t)) : Searched p (pre ++ [c]) skip t := by
  obtain ⟨before, mid, a, hpre, -, hmatch⟩ := h.reach (Nat.succ_pos skip)
  refine h.step (Nat.le_refl _) (fun _ _ _ hfree => absurd (h.covered (Nat.succ_pos skip)) hfree)
    fun _ => ⟨before, mid ++ [c], a, by rw [hpre, List.append_assoc], by simp, ?_⟩
  rw [List.append_assoc, List.singleton_append, hmatch, List.length_append, List.length_singleton]
  congr 2
  omega

/-- A character is passed over where nothing matches. -/
theorem missed (h : Searched p pre 0 (c :: t)) (hmatch : p (endsWord pre) (c :: t) = none) :
    Searched p (pre ++ [c]) 0 t :=
  h.step (Nat.le_refl _) (fun a n hsome => by rw [hmatch] at hsome; cases hsome)
    fun hpos => absurd hpos (Nat.lt_irrefl 0)

/-- A match is entered. -/
theorem entered (h : Searched p pre 0 (c :: t))
    (hmatch : p (endsWord pre) (c :: t) = some (a, n)) : Searched p (pre ++ [c]) (n - 1) t := by
  refine h.step (Nat.zero_le _) (fun a' n' hsome _ => ?_) fun hpos => ?_
  · obtain ⟨-, rfl⟩ := Prod.mk.inj (Option.some.inj (hmatch.symm.trans hsome))
    omega
  · refine ⟨pre, [c], a, rfl, List.cons_ne_nil _ _, ?_⟩
    rw [List.singleton_append, hmatch, List.length_singleton]
    congr 2
    omega

end Searched

theorem matchesFreely_iff {counts : α → Bool} {pre t : Text} {a : α} {n : Nat}
    (hmatch : p (endsWord pre) t = some (a, n)) (hfree : ¬Covered p pre t) :
    MatchesFreely p counts pre t ↔ counts a = true := by
  constructor
  · rintro ⟨⟨a', n', hsome, hcounts⟩, -⟩
    obtain ⟨rfl, -⟩ := Prod.mk.inj (Option.some.inj (hmatch.symm.trans hsome))
    exact hcounts
  · intro hcounts
    exact ⟨⟨a, n, hmatch, hcounts⟩, hfree⟩

open scoped Classical in
/-- **The matches of a search are the free ones**, when matches overlap in pairs only: as many
matches are found as places of the text have a match and lie inside no earlier one. -/
theorem countP_occurrencesFrom (hp : OverlapsInPairs p) (counts : α → Bool) :
    ∀ {skip : Nat} {pre t : Text}, Searched p pre skip t →
      (occurrencesFrom p skip (endsWord pre) t).countP counts =
        Nat.count (fun i => MatchesFreely p counts (pre ++ t.take i) (t.drop i)) t.length
  | skip, pre, [], _ => by
    rw [occurrencesFrom_nil]
    rfl
  | skip, pre, c :: t, h => by
    have hnext (skip' : Nat) (h' : Searched p (pre ++ [c]) skip' t) :
        (occurrencesFrom p skip' (isWord c) t).countP counts =
          Nat.count (fun i => MatchesFreely p counts (pre ++ (c :: t).take (i + 1))
            ((c :: t).drop (i + 1))) t.length := by
      have ih := countP_occurrencesFrom hp counts h'
      rw [endsWord_concat] at ih
      rw [ih]
      simp only [List.take_succ_cons, List.drop_succ_cons, List.append_assoc,
        List.singleton_append]
    rw [List.length_cons, Nat.count_succ', List.take_zero, List.append_nil, List.drop_zero]
    cases skip with
    | succ skip =>
      have hcovered : Covered p pre (c :: t) := h.covered (Nat.succ_pos skip)
      rw [occurrencesFrom, hnext skip h.skipped, if_neg fun hfree => hfree.2 hcovered,
        Nat.add_zero]
    | zero =>
      cases hmatch : p (endsWord pre) (c :: t) with
      | none =>
        have hnot : ¬MatchesFreely p counts pre (c :: t) := by
          rintro ⟨⟨a, n, hsome, -⟩, -⟩
          cases hmatch.symm.trans hsome
        rw [occurrences_cons_of_none hmatch, hnext 0 (h.missed hmatch), if_neg hnot, Nat.add_zero]
      | some m =>
        have hfree : ¬Covered p pre (c :: t) := h.not_covered hp (by rw [hmatch]; rfl)
        rw [occurrences_cons_of_some hmatch, List.countP_cons, hnext _ (h.entered hmatch)]
        exact congrArg _ (if_congr (matchesFreely_iff hmatch hfree).symm rfl rfl)

end SqlSanity.Text
