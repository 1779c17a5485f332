import Mathlib.Data.Finset.Card
import SqlSanity.Proofs.Sql.Block

/-!
# Proofs/Sql/WholeWord — keywords are the words of a text, and nothing less

The searches for keywords look at one place after the other and ask for a border on both sides.
What they find can be told without a search: the words of a text are the longest runs of word
characters in it, at their places, and a keyword counts exactly when it is such a word as a whole.

* `WordIn.exists_places` — the words of a text and their places;
* `WordIn.ncard_setOf_word` — as many places as words;
* `Text.keywords_exact` — the words that open a block, and the words that name an object.
-/

namespace SqlSanity

/-! ## Places of words -/

namespace WordIn

variable {s t b : Text}

/-- A word of a text is a word of a longer one, behind a word border. -/
def behind (e : WordIn t) (s : Text) (h : Text.endsWord s = false ∨ Text.startsWord t = false) :
    WordIn (s ++ t) where
  before := s ++ e.before
  word := e.word
  after := e.after
  text_eq := by simpa only [List.append_assoc] using congrArg (s ++ ·) e.text_eq
  ne_nil := e.ne_nil
  isWord := e.isWord
  startsHere := by
    by_cases hnil : e.before = []
    · rw [hnil, List.append_nil]
      refine h.resolve_right fun ht => ?_
      have hstart : Text.startsWord (e.word ++ e.after) = true :=
        Text.startsWord_of_isWord e.ne_nil e.isWord
      have htext := e.before_append
      rw [hnil, List.nil_append] at htext
      rw [htext, ht] at hstart
      cases hstart
    · rw [Text.endsWord_append hnil, e.startsHere]
  endsHere := e.endsHere

theorem behind_injective (h : Text.endsWord s = false ∨ Text.startsWord t = false) :
    Function.Injective fun e : WordIn t => e.behind s h := by
  intro d e hde
  have hbefore : s ++ d.before = s ++ e.before := congrArg WordIn.before hde
  exact eq_of_length_before (congrArg List.length (List.append_cancel_left hbefore))

/-- A word of a longer text that does not start earlier is a word of the text. -/
theorem exists_behind {e : WordIn (s ++ t)} (hbefore : e.before = s ++ b)
    (h : Text.endsWord s = false ∨ Text.startsWord t = false) :
    ∃ e' : WordIn t, e'.behind s h = e := by
  let e' : WordIn t :=
    { before := b, word := e.word, after := e.after
      text_eq := by
        have htext := e.text_eq
        rw [hbefore, List.append_assoc, List.append_assoc] at htext
        rw [List.append_assoc]
        exact List.append_cancel_left htext
      ne_nil := e.ne_nil
      isWord := e.isWord
      startsHere := by
        by_cases hnil : b = []
        · rw [hnil]
          rfl
        · rw [← Text.endsWord_append hnil, ← hbefore, e.startsHere]
      endsHere := e.endsHere }
  exact ⟨e', eq_of_length_before (congrArg List.length hbefore.symm)⟩

/-- **The words of a text are the words at its places**, each place once. -/
theorem exists_places (t : Text) : ∃ places : List (WordIn t),
    places.map WordIn.word = Text.words t ∧ places.Nodup ∧ ∀ e, e ∈ places := by
  induction t using Text.induction_words with
  | nil =>
    refine ⟨[], rfl, List.nodup_nil, fun e => absurd ?_ e.ne_nil⟩
    have htext := e.before_append
    rw [List.append_eq_nil_iff, List.append_eq_nil_iff] at htext
    exact htext.2.1
  | other c t hc ih =>
    obtain ⟨places, hwords, hnodup, hall⟩ := ih
    have hborder : Text.endsWord [c] = false ∨ Text.startsWord t = false := .inl hc
    refine ⟨places.map fun e => e.behind [c] hborder, ?_, hnodup.map (behind_injective hborder),
      fun e => ?_⟩
    · rw [List.map_map, Text.words_cons_of_not_isWord hc, ← hwords]
      rfl
    · obtain ⟨b, hb⟩ : ∃ b, e.before = [c] ++ b := by
        have htext := e.before_append
        match hbefore : e.before with
        | [] =>
          have hstart : Text.startsWord (e.word ++ e.after) = true :=
            Text.startsWord_of_isWord e.ne_nil e.isWord
          rw [hbefore, List.nil_append] at htext
          rw [htext, Text.startsWord_cons, hc] at hstart
          cases hstart
        | d :: b =>
          rw [hbefore] at htext
          exact ⟨b, by rw [(List.cons.inj htext).1]; rfl⟩
      obtain ⟨e', rfl⟩ := exists_behind hb hborder
      exact List.mem_map_of_mem (hall e')
  | word w t hne hw ht ih =>
    obtain ⟨places, hwords, hnodup, hall⟩ := ih
    have hborder : Text.endsWord w = false ∨ Text.startsWord t = false := .inr ht
    let first : WordIn (w ++ t) :=
      { before := [], word := w, after := t, text_eq := rfl, ne_nil := hne, isWord := hw
        startsHere := rfl, endsHere := ht }
    refine ⟨first :: places.map fun e => e.behind w hborder, ?_, ?_, fun e => ?_⟩
    · rw [List.map_cons, List.map_map, Text.words_append_of_isWord hne hw ht, ← hwords]
      rfl
    · refine List.nodup_cons.2 ⟨fun hmem => ?_, hnodup.map (behind_injective hborder)⟩
      obtain ⟨e, -, he⟩ := List.mem_map.1 hmem
      exact List.append_ne_nil_of_left_ne_nil hne e.before (congrArg WordIn.before he)
    · rcases List.append_eq_append_iff.1 e.before_append with ⟨u, hu, -⟩ | ⟨b, hb, -⟩
      · -- inside the word no other one starts
        have hnil : e.before = [] := by
          by_contra hbefore
          have hopen := Text.endsWord_of_isWord hbefore fun c hc =>
            hw c (hu ▸ List.mem_append_left u hc)
          rw [e.startsHere] at hopen
          cases hopen
        have hfirst : e = first := eq_of_length_before (congrArg List.length hnil)
        exact hfirst ▸ List.mem_cons_self
      · obtain ⟨e', rfl⟩ := exists_behind hb hborder
        exact List.mem_cons_of_mem _ (List.mem_map_of_mem (hall e'))

/-- **There are as many places of words of a kind as there are such words.** -/
theorem ncard_setOf_word (t : Text) (P : Text → Prop) [DecidablePred P] :
    {e : WordIn t | P e.word}.ncard = (Text.words t).countP fun w => P w := by
  classical
  obtain ⟨places, hwords, hnodup, hall⟩ := exists_places t
  have hset : {e : WordIn t | P e.word} = ↑(places.filter fun e => P e.word).toFinset := by
    ext e
    simp [hall e]
  rw [hset, Set.ncard_coe_finset, List.toFinset_card_of_nodup (hnodup.filter _),
    ← List.countP_eq_length_filter, ← hwords, List.countP_map]
  rfl

/-- A text has a word of a kind at some place exactly when that is one of its words. -/
theorem exists_word_iff {P : Text → Prop} :
    (∃ e : WordIn t, P e.word) ↔ ∃ w ∈ Text.words t, P w := by
  obtain ⟨places, hwords, -, hall⟩ := exists_places t
  rw [← hwords]
  simp [hall]

end WordIn

/-! ## Keywords -/

namespace Text

variable {a c : Char}

/-- The small letter of a character: of an ASCII letter in either case, and of the KELVIN SIGN,
which stands for a k. -/
def smallLetter (c : Char) : Char := if c = '\u212a' then 'k' else c.toLower

/-- The words that SQL and PL/SQL objects are written with. -/
def objectWords : List Text :=
  ["create".toList, "replace".toList, "procedure".toList, "function".toList, "package".toList,
    "trigger".toList, "begin".toList, "end".toList]

/-- Any other letter than s is read in ASCII or as the KELVIN SIGN. -/
theorem foldChar_eq_iff_smallLetter (ha : a.toNat < 0x80) (hs : a ≠ 's') :
    foldChar c = a ↔ smallLetter c = a := by
  by_cases hk : c = '\u212a'
  · subst hk
    rfl
  · rw [smallLetter, if_neg hk]
    by_cases hlong : c = '\u017f'
    · subst hlong
      refine iff_of_false hs.symm ?_
      rintro rfl
      exact absurd ha (by decide)
    · have hk' : ¬(c.toNat == 0x212a) = true := fun h => hk (Char.toNat_inj.1 (by simpa using h))
      have hs' : ¬(c.toNat == 0x17f) = true := fun h => hlong (Char.toNat_inj.1 (by simpa using h))
      rw [foldChar, if_neg hk', if_neg hs']

/-- The spellings of the object keywords are their ASCII letters in either case, with a KELVIN SIGN
for a k. -/
theorem exists_isSpelling_iff {w : Text} :
    (∃ k ∈ Keyword.objectKeywords, k.IsSpelling w) ↔ w.map smallLetter ∈ objectWords := by
  have hwords : objectWords = Keyword.objectKeywords.map Keyword.letters := rfl
  have hs : ∀ k ∈ Keyword.objectKeywords, 's' ∉ k.letters := by decide
  rw [hwords, List.mem_map]
  refine exists_congr fun k => and_congr_right fun hk => ?_
  rw [Keyword.IsSpelling, eq_comm (a := k.letters)]
  exact map_eq_iff fun a ha _ =>
    foldChar_eq_iff_smallLetter (k.toNat_lt_of_mem_letters ha) fun h => hs k hk (h ▸ ha)

/-- **Keywords are whole words.**  A text opens as many blocks as there are words BEGIN in it, and
it names an object exactly when one of its words is an object keyword, up to the case of ASCII
letters and with a KELVIN SIGN for a k.  A word is a run of word characters with none beside it. -/
theorem keywords_exact (t : Text) :
    t.openings = {e : WordIn t | e.word.map Char.toLower = "begin".toList}.ncard ∧
      (t.namesObject = true ↔ ∃ e : WordIn t, e.word.map smallLetter ∈ objectWords) := by
  constructor
  · have hbegin (w : Text) :
        Keyword.blockBegin.IsSpelling w ↔ w.map Char.toLower = "begin".toList :=
      Keyword.isSpelling_iff_toLower (by decide) (by decide)
    have hplaces := WordIn.ncard_setOf_word t fun w => w.map Char.toLower = "begin".toList
    rw [hplaces, openings, Keyword.count_eq_countP_words]
    simp only [hbegin]
  · have hword := WordIn.exists_word_iff (t := t) (P := fun w => w.map smallLetter ∈ objectWords)
    rw [hword, namesObject, List.any_eq_true]
    simp only [Keyword.standsIn_iff_exists_mem_words, ← exists_isSpelling_iff]
    constructor
    · rintro ⟨k, hk, w, hw, hspell⟩
      exact ⟨w, hw, k, hk, hspell⟩
    · rintro ⟨w, hw, k, hk, hspell⟩
      exact ⟨k, hk, w, hw, hspell⟩

/-- Letters, digits, an underscore, a combining accent and a joiner go on with a word, and a dollar
sign, a number sign and a superscript digit end it. -/
example : openings "xBEGIN BEGIN1 BEGIN_ BEGIN\u0301 BEGIN\u200d éBEGIN".toList = 0 ∧
    openings "$Begin#begin²BEGIN".toList = 3 := by
  decide +kernel

end Text

end SqlSanity
