import SqlSanity.Proofs.Text.Occurrence

/-!
# Proofs/Text/Word — a text as its words and what stands between them

A text is read from one word border to the next: where the words of a text come from is decided on
each side of a border for itself, and a pattern that matches only where a word starts finds nothing
else on the way.

* `Text.words_append` — a word border parts the words before it from those after it;
* `Text.induction_words` — induction along the words of a text;
* `Text.StartsWords` — patterns that match only where a word starts, and their search word by word.
-/

namespace SqlSanity.Text

variable {s t u w g l l' rest rest' : Text} {c : Char}

/-! ## Word borders -/

theorem afterWord_append (b : Bool) (s t : Text) :
    afterWord b (s ++ t) = afterWord (afterWord b s) t := List.foldl_append

/-- What stands before a text does not matter at its end. -/
theorem afterWord_eq_endsWord (hne : t ≠ []) (b : Bool) : afterWord b t = endsWord t := by
  cases t with
  | nil => exact absurd rfl hne
  | cons c t => rfl

theorem endsWord_append (hne : t ≠ []) : endsWord (s ++ t) = endsWord t :=
  (afterWord_append false s t).trans (afterWord_eq_endsWord hne _)

theorem endsWord_of_cons (h : endsWord (c :: s) = false) : endsWord s = false := by
  by_cases hnil : s = []
  · exact hnil ▸ rfl
  · rwa [← List.singleton_append, endsWord_append hnil] at h

/-- Word characters leave a word open. -/
theorem endsWord_of_isWord (hne : w ≠ []) (hw : ∀ c ∈ w, isWord c = true) : endsWord w = true := by
  rw [← List.dropLast_concat_getLast hne, endsWord_concat]
  exact hw _ (List.getLast_mem hne)

theorem startsWord_append (hne : s ≠ []) : startsWord (s ++ t) = startsWord s := by
  cases s with
  | nil => exact absurd rfl hne
  | cons c s => rfl

theorem startsWord_of_isWord (hne : w ≠ []) (hw : ∀ c ∈ w, isWord c = true) :
    startsWord (w ++ t) = true := by
  obtain ⟨c, v, rfl⟩ := List.exists_cons_of_ne_nil hne
  exact hw c List.mem_cons_self

/-- Behind the word characters at its start a text goes on with none. -/
theorem startsWord_dropWhile (t : Text) : startsWord (t.dropWhile isWord) = false := by
  have hhead := List.head?_dropWhile_not isWord t
  cases hdrop : t.dropWhile isWord with
  | nil => rfl
  | cons c u =>
    rw [hdrop] at hhead
    simpa using hhead

/-- A run of word characters is told from what follows it, if that does not go on with it. -/
theorem append_eq_append_of_isWord (hl : ∀ c ∈ l, isWord c = true)
    (hl' : ∀ c ∈ l', isWord c = true) (hrest : startsWord rest = false)
    (hrest' : startsWord rest' = false) (h : l ++ rest = l' ++ rest') : l = l' ∧ rest = rest' := by
  have htake {l rest : Text} (hl : ∀ c ∈ l, isWord c = true) (hrest : startsWord rest = false) :
      (l ++ rest).takeWhile isWord = l := by
    rw [List.takeWhile_append_of_pos hl]
    cases rest with
    | nil => exact List.append_nil l
    | cons c rest => rw [List.takeWhile_cons_of_neg (by simpa using hrest), List.append_nil]
  have heq : l = l' := by rw [← htake hl hrest, h, htake hl' hrest']
  subst heq
  exact ⟨rfl, List.append_cancel_left h⟩

/-- **Induction along the words of a text**: over the characters outside its words, and over each
word as a whole. -/
@[elab_as_elim]
theorem induction_words {motive : Text → Prop} (nil : motive [])
    (other : ∀ c t, isWord c = false → motive t → motive (c :: t))
    (word : ∀ w t, w ≠ [] → (∀ c ∈ w, isWord c = true) → startsWord t = false → motive t →
      motive (w ++ t)) : ∀ t : Text, motive t
  | [] => nil
  | c :: t => by
    by_cases hc : isWord c = true
    · have hword : ∀ d ∈ c :: t.takeWhile isWord, isWord d = true := fun d hd => by
        rcases List.mem_cons.1 hd with rfl | hd
        · exact hc
        · exact List.all_eq_true.1 List.all_takeWhile d hd
      have hrest := word _ _ (List.cons_ne_nil _ _) hword (startsWord_dropWhile t)
        (induction_words nil other word (t.dropWhile isWord))
      rwa [List.cons_append, List.takeWhile_append_dropWhile] at hrest
    · exact other c t (Bool.eq_false_iff.2 hc) (induction_words nil other word t)
termination_by t => t.length
decreasing_by
  · exact Nat.lt_succ_of_le (List.dropWhile_suffix isWord).length_le
  · exact Nat.lt_succ_self _

/-! ## The words of a text -/

/-- What is no word character leaves no trace in the words. -/
theorem words_of_not_isWord : ∀ {g : Text}, (∀ c ∈ g, isWord c = false) → words (g ++ t) = words t
  | [], _ => rfl
  | c :: g, h => by
    rw [List.cons_append, words_cons_of_not_isWord (h c List.mem_cons_self)]
    exact words_of_not_isWord fun d hd => h d (List.mem_cons_of_mem _ hd)

theorem words_eq_nil (hg : ∀ c ∈ g, isWord c = false) : words g = [] := by
  have h := words_of_not_isWord (t := []) hg
  rwa [List.append_nil] at h

/-- A word in front of a border is the first of the words. -/
theorem words_append_of_isWord : ∀ {w : Text}, w ≠ [] → (∀ c ∈ w, isWord c = true) →
    startsWord t = false → words (w ++ t) = w :: words t
  | [], hne, _, _ => absurd rfl hne
  | [c], _, hw, ht => by
    rw [List.singleton_append, words, if_pos (hw c List.mem_cons_self), ht]
  | c :: d :: w, _, hw, ht => by
    have ih := words_append_of_isWord (List.cons_ne_nil d w)
      (fun e he => hw e (List.mem_cons_of_mem _ he)) ht
    have hd : startsWord (d :: w ++ t) = true := hw d (by simp)
    rw [List.cons_append, words, if_pos (hw c List.mem_cons_self), hd, ih]

theorem words_of_isWord (hne : w ≠ []) (hw : ∀ c ∈ w, isWord c = true) : words w = [w] := by
  have h := words_append_of_isWord hne hw startsWord_nil
  rwa [List.append_nil] at h

/-- **A word border parts the words before it from those after it.** -/
theorem words_append (h : endsWord s = false ∨ startsWord t = false) :
    words (s ++ t) = words s ++ words t := by
  induction s using induction_words with
  | nil => rfl
  | other c s hc ih =>
    rw [List.cons_append, words_cons_of_not_isWord hc, words_cons_of_not_isWord hc]
    exact ih (h.imp_left endsWord_of_cons)
  | word w s hne hw hs ih =>
    by_cases hnil : s = []
    · subst hnil
      rw [List.append_nil, endsWord_of_isWord hne hw] at h
      have ht := h.resolve_left (fun h => nomatch h)
      rw [List.append_nil, words_append_of_isWord hne hw ht, words_of_isWord hne hw,
        List.singleton_append]
    · rw [endsWord_append hnil] at h
      have hst : startsWord (s ++ t) = false := (startsWord_append hnil).trans hs
      rw [List.append_assoc, words_append_of_isWord hne hw hst, words_append_of_isWord hne hw hs,
        ih h, List.cons_append]

/-! ## Patterns that match where a word starts -/

variable {α : Type} {p : Pattern α} {b : Bool} {a : α}

/-- A pattern that matches only where a word starts. -/
structure StartsWords (p : Pattern α) : Prop where
  /-- It does not match behind a word character. -/
  inside : ∀ t, p true t = none
  /-- It does not match where a text goes on with no word. -/
  outside : ∀ {t}, startsWord t = false → p false t = none

namespace StartsWords

/-- Where no word starts it does not matter what stands before. -/
theorem occurrencesFrom_eq (hp : StartsWords p) (ht : startsWord t = false) :
    occurrencesFrom p 0 b t = occurrences p t := by
  cases t with
  | nil => exact (occurrencesFrom_nil 0 b).trans (occurrencesFrom_nil 0 false).symm
  | cons c t =>
    have hnone : p b (c :: t) = none := by
      cases b with
      | false => exact hp.outside ht
      | true => exact hp.inside _
    rw [occurrences, occurrences_cons_of_none hnone, occurrences_cons_of_none (hp.outside ht)]

/-- Nothing is found at what is no word character. -/
theorem occurrences_cons (hp : StartsWords p) (hc : isWord c = false) :
    occurrences p (c :: t) = occurrences p t := by
  rw [occurrences, occurrences_cons_of_none (hp.outside hc), hc, occurrences]

theorem occurrences_of_not_isWord (hp : StartsWords p) : ∀ {g : Text},
    (∀ c ∈ g, isWord c = false) → occurrences p (g ++ t) = occurrences p t
  | [], _ => rfl
  | c :: g, h => by
    rw [List.cons_append, hp.occurrences_cons (h c List.mem_cons_self)]
    exact hp.occurrences_of_not_isWord fun d hd => h d (List.mem_cons_of_mem _ hd)

/-- Nothing is found inside a word. -/
theorem occurrencesFrom_inside (hp : StartsWords p) (ht : startsWord t = false) :
    ∀ {w : Text}, (∀ c ∈ w, isWord c = true) →
      occurrencesFrom p 0 true (w ++ t) = occurrences p t
  | [], _ => hp.occurrencesFrom_eq ht
  | c :: w, hw => by
    rw [List.cons_append, occurrences_cons_of_none (hp.inside _), hw c List.mem_cons_self]
    exact hp.occurrencesFrom_inside ht fun d hd => hw d (List.mem_cons_of_mem _ hd)

/-- **The search passes a word where the pattern does not match.** -/
theorem occurrences_of_none (hp : StartsWords p) (hne : w ≠ []) (hw : ∀ c ∈ w, isWord c = true)
    (ht : startsWord t = false) (hnone : p false (w ++ t) = none) :
    occurrences p (w ++ t) = occurrences p t := by
  obtain ⟨c, v, rfl⟩ := List.exists_cons_of_ne_nil hne
  rw [List.cons_append] at hnone ⊢
  rw [occurrences, occurrences_cons_of_none hnone, hw c List.mem_cons_self]
  exact hp.occurrencesFrom_inside ht fun d hd => hw d (List.mem_cons_of_mem _ hd)

/-- **The search takes a match and goes on behind it**, when the match ends at a word border. -/
theorem occurrences_of_some (hp : StartsWords p) (hprogress : Progresses p)
    (h : p false (u ++ t) = some (a, u.length))
    (hborder : endsWord u = false ∨ startsWord t = false) :
    occurrences p (u ++ t) = a :: occurrences p t := by
  rw [occurrences, occurrencesFrom_append hprogress h]
  rcases hborder with hu | ht
  · rw [← endsWord, hu, occurrences]
  · rw [hp.occurrencesFrom_eq ht]

end StartsWords

end SqlSanity.Text
