import SqlSanity.Proofs.Sql.Keyword
import SqlSanity.Validation

/-!
# Proofs/Validation — the verdict on a source, and which findings go together

The report on a source is read off three facts: is the source blank, which lines replace a table,
and how do its keywords count up.  The two doubts exclude each other, and so do a missing object and
an objection to a line: every keyword that is counted or objected to is an object of its own
(`Proofs/Sql/Keyword`).  What is left are six shapes, each under its own condition.

* `Text.ReportShape` — the six shapes of a report, with what each of them takes;
* `Text.exists_imbalance_mem_warnings_iff` — when a source is warned of an imbalance;
* `Text.validate_verdict` — the verdict on a source, and the shape of its report.
-/

namespace SqlSanity

/-- Counts are too far apart exactly when they differ by more than the tolerance. -/
theorem isUnbalanced_iff {openings closings : Nat} :
    isUnbalanced openings closings = true ↔ 2 < ((openings : Int) - closings).natAbs := by
  rw [isUnbalanced, Bool.or_eq_true, decide_eq_true_iff, decide_eq_true_iff, balanceTolerance]
  omega

namespace Text

/-- The objections to the lines of a source, in words. -/
def lineErrors (t : Text) : List String :=
  t.replacementLines.map fun n => (Objection.replacedTable n).message

/-- The openings and closings of a source are more than two apart. -/
def IsImbalanced (t : Text) : Prop := 2 < ((t.openings : Int) - t.closings).natAbs

/-- The warning on a source whose openings and closings are too far apart. -/
def imbalanceWarning (t : Text) : String :=
  "possible BEGIN/END imbalance: " ++ toString t.openings ++ " BEGIN, ~" ++ toString t.closings
    ++ " END (may be a false positive in packages)"

/-- The shapes of a report on a source: its errors and its warnings, and when they are these. -/
inductive ReportShape (t : Text) : List String → List String → Prop
  | blank (h : t.OnlyBlanks) : ReportShape t ["file is empty"] []
  | clean (h : ¬t.OnlyBlanks) (hl : t.replacementLines = []) (ho : t.namesObject = true)
      (hb : ¬t.IsImbalanced) : ReportShape t [] []
  | noObject (h : ¬t.OnlyBlanks) (hl : t.replacementLines = []) (ho : t.namesObject = false)
      (hb : ¬t.IsImbalanced) : ReportShape t [] ["file may not contain valid PL/SQL objects"]
  | imbalanced (h : ¬t.OnlyBlanks) (hl : t.replacementLines = []) (ho : t.namesObject = true)
      (hb : t.IsImbalanced) : ReportShape t [] [t.imbalanceWarning]
  | lines (h : ¬t.OnlyBlanks) (hl : t.replacementLines ≠ []) (ho : t.namesObject = true)
      (hb : ¬t.IsImbalanced) : ReportShape t t.lineErrors []
  | linesImbalanced (h : ¬t.OnlyBlanks) (hl : t.replacementLines ≠ [])
      (ho : t.namesObject = true) (hb : t.IsImbalanced) :
      ReportShape t t.lineErrors [t.imbalanceWarning]

/-- A source that names no object is balanced, and no line of it replaces a table. -/
theorem namesObject_eq_false {t : Text} (h : t.namesObject = false) :
    t.replacementLines = [] ∧ ¬t.IsImbalanced := by
  constructor
  · refine List.eq_nil_iff_forall_not_mem.2 fun n hn => ?_
    exact Bool.false_ne_true (h.symm.trans (namesObject_of_mem_replacementLines hn))
  · intro hb
    have hne : t.openings ≠ t.closings := fun heq => by
      rw [IsImbalanced, heq] at hb
      omega
    exact Bool.false_ne_true (h.symm.trans (namesObject_of_openings_ne hne))

variable {t : Text} {p : Path}

theorem errors_validate :
    (t.validate p).errors = if t.isBlank then ["file is empty"] else t.lineErrors := by
  rw [validate, findings]
  split
  · rfl
  · exact List.map_map

theorem warnings_validate :
    (t.validate p).warnings = if t.isBlank then [] else
      (if t.namesObject then [] else ["file may not contain valid PL/SQL objects"])
        ++ if isUnbalanced t.openings t.closings then [t.imbalanceWarning] else [] := by
  rw [validate, findings]
  split
  · rfl
  · change (doubts t).map Doubt.message = _
    rw [doubts, List.map_append]
    congr 1
    · split <;> rfl
    · split <;> rfl

/-- **A report on a source has one of the six shapes.** -/
theorem reportShape_validate (t : Text) (p : Path) :
    t.ReportShape (t.validate p).errors (t.validate p).warnings := by
  rw [errors_validate, warnings_validate]
  cases hblank : t.isBlank with
  | true => exact .blank (isBlank_iff.1 hblank)
  | false =>
    have h := isBlank_eq_false_iff.1 hblank
    rw [if_neg Bool.false_ne_true, if_neg Bool.false_ne_true]
    cases ho : t.namesObject with
    | false =>
      obtain ⟨hl, hb⟩ := namesObject_eq_false ho
      rw [if_neg Bool.false_ne_true, if_neg (mt isUnbalanced_iff.1 hb), lineErrors, hl]
      exact .noObject h hl ho hb
    | true =>
      rw [if_pos rfl, List.nil_append]
      by_cases hl : t.replacementLines = []
      · have he : t.lineErrors = [] := by rw [lineErrors, hl, List.map_nil]
        rw [he]
        split
        · next hb => exact .imbalanced h hl ho (isUnbalanced_iff.1 hb)
        · next hb => exact .clean h hl ho (mt isUnbalanced_iff.2 hb)
      · split
        · next hb => exact .linesImbalanced h hl ho (isUnbalanced_iff.1 hb)
        · next hb => exact .lines h hl ho (mt isUnbalanced_iff.2 hb)

/-- What comes behind a message changes none of its characters. -/
theorem getElem?_toList_append {a b : String} {c : Char} {i : Nat} (h : a.toList[i]? = some c) :
    (a ++ b).toList[i]? = some c := by
  obtain ⟨hi, -⟩ := List.getElem?_eq_some_iff.1 h
  rw [String.toList_append, List.getElem?_append_left hi, h]

/-- Texts that differ in a character are different. -/
theorem ne_of_getElem?_toList {a b : String} {c d : Char} {i : Nat} (ha : a.toList[i]? = some c)
    (hb : b.toList[i]? = some d) (hne : c ≠ d) : a ≠ b := by
  rintro rfl
  exact hne (Option.some.inj (ha.symm.trans hb))

/-- The two warnings start with different letters. -/
theorem noObject_ne_imbalance (b e : Nat) :
    "file may not contain valid PL/SQL objects" ≠ (Doubt.imbalance b e).message := by
  have hp : (Doubt.imbalance b e).message.toList[0]? = some 'p' :=
    getElem?_toList_append (getElem?_toList_append (getElem?_toList_append
      (getElem?_toList_append rfl)))
  exact ne_of_getElem?_toList rfl hp (by decide : 'f' ≠ 'p')

/-- A blank source names no object. -/
theorem namesObject_of_onlyBlanks (h : t.OnlyBlanks) : t.namesObject = false := by
  have hwords : words t = [] :=
    words_eq_nil fun c hc => isWord_of_isBlankChar (isBlankChar_iff.2 (h c hc))
  refine List.any_eq_false.2 fun k _ hstands => ?_
  obtain ⟨w, hw, -⟩ := Keyword.standsIn_iff_exists_mem_words.1 hstands
  rw [hwords] at hw
  cases hw

/-- **A source is warned of an imbalance exactly when it is out of balance.** -/
theorem exists_imbalance_mem_warnings_iff :
    (∃ b e, (Doubt.imbalance b e).message ∈ (t.validate p).warnings) ↔ t.IsImbalanced := by
  have hshape := reportShape_validate t p
  generalize (t.validate p).errors = es, (t.validate p).warnings = ws at hshape
  cases hshape with
  | blank h => simp [(namesObject_eq_false (namesObject_of_onlyBlanks h)).2]
  | clean _ _ _ hb => simp [hb]
  | noObject _ _ _ hb =>
    refine iff_of_false ?_ hb
    rintro ⟨b, e, hmem⟩
    exact noObject_ne_imbalance b e (List.mem_singleton.1 hmem).symm
  | imbalanced _ _ _ hb => exact iff_of_true ⟨_, _, List.mem_singleton.2 rfl⟩ hb
  | lines _ _ _ hb => simp [hb]
  | linesImbalanced _ _ _ hb => exact iff_of_true ⟨_, _, List.mem_singleton.2 rfl⟩ hb

/-- A report has an error exactly when the source is blank or a line of it replaces a table. -/
theorem errors_validate_eq_nil_iff :
    (t.validate p).errors = [] ↔ ¬(t.OnlyBlanks ∨ t.lineErrors ≠ []) := by
  rw [errors_validate, ← isBlank_iff]
  split
  · next h => simp [h]
  · next h => simp [h]

/-- A source that is not blank is doubted exactly when it is out of balance or names no object. -/
theorem warnings_validate_eq_nil_iff (h : ¬t.OnlyBlanks) :
    (t.validate p).warnings = [] ↔ ¬(t.IsImbalanced ∨ t.namesObject = false) := by
  rw [warnings_validate, if_neg (mt isBlank_iff.1 h), List.append_eq_nil_iff, IsImbalanced,
    ← isUnbalanced_iff]
  cases t.namesObject <;> cases isUnbalanced t.openings t.closings <;> simp

/-- The status of a report says whether it has errors, and failing these whether it has warnings. -/
theorem status_validate :
    ((t.validate p).status = .failure ↔ (t.validate p).errors ≠ []) ∧
    ((t.validate p).status = .warning ↔
      (t.validate p).errors = [] ∧ (t.validate p).warnings ≠ []) ∧
    ((t.validate p).status = .success ↔
      (t.validate p).errors = [] ∧ (t.validate p).warnings = []) := by
  have h : (t.validate p).status = if (t.validate p).errors = [] then
      if (t.validate p).warnings = [] then .success else .warning else .failure :=
    Report.status_ofFindings _ _ _
  rw [h]
  split
  · next he => split <;> simp_all
  · next he => simp [he]

/-- **The verdict on a source, and what its report can say.**  It fails exactly when nothing but
blanks is in it or a line replaces a table, and is doubted exactly when neither holds and it is out
of balance or names no object.  Its errors and warnings have one of the six shapes; so there is one
warning at most, and the warning that no object is named stands alone. -/
theorem validate_verdict (t : Text) (p : Path) :
    ((t.validate p).status = .failure ↔ t.OnlyBlanks ∨ t.lineErrors ≠ []) ∧
    ((t.validate p).status = .warning ↔ ¬(t.OnlyBlanks ∨ t.lineErrors ≠ []) ∧
      (2 < ((t.openings : Int) - t.closings).natAbs ∨ t.namesObject = false)) ∧
    ((t.validate p).status = .success ↔ ¬(t.OnlyBlanks ∨ t.lineErrors ≠ []) ∧
      ¬(2 < ((t.openings : Int) - t.closings).natAbs ∨ t.namesObject = false)) ∧
    (t.validate p).path = p ∧
    t.ReportShape (t.validate p).errors (t.validate p).warnings ∧
    (t.validate p).warnings.length ≤ 1 ∧
    ("file may not contain valid PL/SQL objects" ∈ (t.validate p).warnings →
      (t.validate p).errors = [] ∧
        (t.validate p).warnings = ["file may not contain valid PL/SQL objects"]) := by
  obtain ⟨hfailure, hwarning, hsuccess⟩ := @status_validate t p
  have herrors := @errors_validate_eq_nil_iff t p
  have hwarnings (hnot : ¬(t.OnlyBlanks ∨ t.lineErrors ≠ [])) :
      (t.validate p).warnings = [] ↔ ¬(t.IsImbalanced ∨ t.namesObject = false) :=
    warnings_validate_eq_nil_iff (mt Or.inl hnot)
  have hshape := reportShape_validate t p
  refine ⟨?_, ?_, ?_, rfl, hshape, ?_, ?_⟩
  · rw [hfailure, Ne, herrors, Classical.not_not]
  · rw [hwarning, herrors]
    exact and_congr_right fun hnot => by rw [Ne, hwarnings hnot, Classical.not_not, IsImbalanced]
  · rw [hsuccess, herrors]
    exact and_congr_right hwarnings
  · generalize (t.validate p).errors = es, (t.validate p).warnings = ws at hshape
    cases hshape <;> simp
  · generalize (t.validate p).errors = es, (t.validate p).warnings = ws at hshape
    intro hmem
    cases hshape with
    | blank | clean | lines => cases hmem
    | noObject => exact ⟨rfl, rfl⟩
    | imbalanced | linesImbalanced =>
      exact absurd (List.mem_singleton.1 hmem) (noObject_ne_imbalance _ _)

end Text

end SqlSanity
