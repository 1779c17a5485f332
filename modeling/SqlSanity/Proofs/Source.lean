import SqlSanity.Proofs.Text.Fault
import SqlSanity.Proofs.Validation
import SqlSanity.Source

/-!
# Proofs/Source — which files fail

The report on a file is a failure for one of four reasons: the file cannot be read, its bytes are
the form of no text, the text is blank, or a line of it replaces a table.  For the first two the
report is one error, and its words say what went wrong and where.

* `Defective` — the four reasons, as what reading the file gives;
* `View.readSource_eq_ok_iff` — the source that a path gives;
* `View.readSource_eq_notFound_iff` — the paths that are not found;
* `View.status_validateFile_iff` — a report is a failure exactly for one of the four reasons;
* `View.validateFile_exact` — the report, word for word, by what there is to read.
-/

namespace SqlSanity

/-- A line of the text has CREATE OR REPLACE TABLE before its first comment mark. -/
def Text.ReplacesTable (t : Text) : Prop :=
  ∃ before code after, t = before ++ code ++ after ∧ Text.LineStarts before ∧
    Text.EndsInPhrase Text.replaceTable code

/-- A text has such a line exactly when there is an objection to a line of it. -/
theorem Text.replacesTable_iff {t : Text} : t.ReplacesTable ↔ t.lineErrors ≠ [] := by
  rw [Text.lineErrors, Ne, List.map_eq_nil_iff]
  constructor
  · rintro ⟨before, code, after, htext, hstart, hcode⟩
    exact List.ne_nil_of_mem (mem_replacementLines_iff.2 ⟨_, _, _, htext, hstart, hcode, rfl⟩)
  · intro hne
    obtain ⟨n, hn⟩ := List.exists_mem_of_ne_nil _ hne
    obtain ⟨before, code, after, htext, hstart, hcode, -⟩ := mem_replacementLines_iff.1 hn
    exact ⟨before, code, after, htext, hstart, hcode⟩

/-- What reading a file gives is wrong: it is an error, bytes that are no text, or a text that is
blank or has a line that replaces a table. -/
inductive Defective : Except FileError Bytes → Prop
  | unreadable (e : FileError) : Defective (.error e)
  | notText {bytes : Bytes} (h : ∀ t, bytes ≠ Utf8.encode t) : Defective (.ok bytes)
  | blank {t : Text} (h : t.OnlyBlanks) : Defective (.ok (Utf8.encode t))
  | replaced {t : Text} (h : t.ReplacesTable) : Defective (.ok (Utf8.encode t))

/-- The failure to read a file that is the cause, unless it is in the bytes of the file. -/
def SourceError.fileError? : SourceError → Option FileError
  | notFound => some .noEntry
  | unreadable e => some e
  | notText _ => none

theorem SourceError.fileError?_ofFileError (e : FileError) :
    (ofFileError e).fileError? = some e := by
  cases e <;> rfl

/-- Every cause but a missing entry makes a file unreadable. -/
theorem SourceError.ofFileError_eq_unreadable_iff {e e' : FileError} :
    ofFileError e = .unreadable e' ↔ e = e' ∧ e' ≠ .noEntry := by
  constructor
  · intro h
    have hcause : some e = some e' :=
      (fileError?_ofFileError e).symm.trans (congrArg SourceError.fileError? h)
    obtain rfl := Option.some.inj hcause
    refine ⟨rfl, ?_⟩
    rintro rfl
    cases h
  · rintro ⟨rfl, hother⟩
    rw [ofFileError.eq_def]
    split
    · exact absurd rfl hother
    · rfl

theorem SourceError.ofFileError_ne_notText (e : FileError) (f : Utf8.Fault) :
    ofFileError e ≠ .notText f := by
  cases e <;> exact nofun

/-- A file is said not to be found only where that is the cause. -/
theorem SourceError.message_eq_notFound_iff {p : Path} {s : SourceError} :
    s.message p = "file not found: " ++ p.display ↔ s = .notFound := by
  constructor
  · intro h
    cases s with
    | notFound => rfl
    | unreadable e =>
      have hread : (message p (unreadable e)).toList[2]? = some 'i' :=
        Text.getElem?_toList_append (Text.getElem?_toList_append
          (Text.getElem?_toList_append rfl))
      have hfound : ("file not found: " ++ p.display).toList[2]? = some 'l' :=
        Text.getElem?_toList_append rfl
      exact absurd h (Text.ne_of_getElem?_toList hread hfound (by decide))
    | notText f =>
      have hlength : (p.display ++ " is not valid UTF-8: " ++ f.message).length =
          ("file not found: " ++ p.display).length := congrArg String.length h
      rw [String.length_append, String.length_append, String.length_append] at hlength
      have hmark : " is not valid UTF-8: ".length = 21 := rfl
      have hstart : "file not found: ".length = 16 := rfl
      omega
  · rintro rfl
    rfl

/-- No error of a source says that the file is not found. -/
theorem Text.errors_validate_ne {t : Text} {p : Path} :
    (t.validate p).errors ≠ ["file not found: " ++ p.display] := by
  have hfound {i : Nat} {c : Char} (h : "file not found: ".toList[i]? = some c) :
      ("file not found: " ++ p.display).toList[i]? = some c := getElem?_toList_append h
  intro h
  rw [errors_validate] at h
  split at h
  · have hblank : "file is empty".toList[5]? = some 'i' := rfl
    exact ne_of_getElem?_toList hblank (hfound rfl) (by decide : 'i' ≠ 'n') (List.cons.inj h).1
  · obtain ⟨n, -, hn⟩ := List.mem_map.1 (h ▸ List.mem_singleton_self _ : _ ∈ t.lineErrors)
    have hline : (Objection.replacedTable n).message.toList[0]? = some 'l' :=
      getElem?_toList_append (getElem?_toList_append rfl)
    exact ne_of_getElem?_toList hline (hfound rfl) (by decide : 'l' ≠ 'f') hn

namespace View

variable {v : View} {p : Path} {t : Text} {node : Node} {bytes : Bytes} {e : FileError}
  {s : SourceError} {f : Utf8.Fault}

/-! ## Reading -/

/-- What cannot be looked up cannot be read, and for the same reason. -/
theorem read_of_find_error (h : v.find p = .error e) : v.read p = .error e := by
  rw [read, h]

/-- Why what is there cannot be read. -/
theorem error_of_read (h : v.find p = .ok node) (he : v.read p = .error e) :
    e = .denied ∨ e = .isDirectory ∧ node.isDirectory = true ∨ e = .tooManyLinks := by
  rw [read, h] at he
  rcases node with ⟨_ | _, content⟩ | target | ⟨_ | _, entries⟩
  · cases he
  · exact .inl (Except.error.inj he).symm
  · exact .inr (.inr (Except.error.inj he).symm)
  · exact .inr (.inl ⟨(Except.error.inj he).symm, rfl⟩)
  · exact .inl (Except.error.inj he).symm

theorem readSource_of_error (h : v.read p = .error e) :
    v.readSource p = .error (.ofFileError e) := by
  rw [readSource, h]

theorem readSource_of_ok (h : v.read p = .ok bytes) :
    v.readSource p = (Utf8.decode bytes).mapError .notText := by
  rw [readSource, h]
  rcases hdecode : Utf8.decode bytes with f | t <;> simp only [hdecode] <;> rfl

/-- **A path gives a source exactly when the bytes read are its form.** -/
theorem readSource_eq_ok_iff : v.readSource p = .ok t ↔ v.read p = .ok (Utf8.encode t) := by
  rw [readSource]
  split
  · next e h => simp [h]
  · next bytes h =>
    rw [h, Except.ok.injEq, ← Utf8.decode_eq_ok_iff_encode]
    split
    · next f hf => simp [hf]
    · next u hu => simp [hu]

/-- **A source fails as the file is read to fail**, unless it is for its bytes. -/
theorem readSource_eq_ofFileError_iff :
    v.readSource p = .error (.ofFileError e) ↔ v.read p = .error e := by
  refine ⟨fun h => ?_, readSource_of_error⟩
  have hcause : ∀ s, v.readSource p = .error s → s.fileError? = some e := fun s hs => by
    rw [Except.error.inj (hs.symm.trans h), SourceError.fileError?_ofFileError]
  rcases hread : v.read p with e' | bytes
  · have he := hcause _ (readSource_of_error hread)
    rw [SourceError.fileError?_ofFileError] at he
    rw [Option.some.inj he]
  · have hsource := readSource_of_ok hread
    rcases hdecode : Utf8.decode bytes with f | t <;> rw [hdecode] at hsource
    · cases hcause (.notText f) hsource
    · cases h.symm.trans hsource

/-- A path is not found exactly when it leads to a name that is not there. -/
theorem readSource_eq_notFound_iff :
    v.readSource p = .error .notFound ↔ v.find p = .error .noEntry := by
  refine (readSource_eq_ofFileError_iff (e := .noEntry)).trans ⟨fun h => ?_, read_of_find_error⟩
  rcases hfind : v.find p with e | node
  · exact congrArg Except.error (Except.error.inj ((read_of_find_error hfind).symm.trans h))
  · rcases error_of_read hfind h with he | ⟨he, -⟩ | he <;> cases he

/-- A path is unreadable exactly when it is read to fail for another reason than a missing entry. -/
theorem readSource_eq_unreadable_iff :
    v.readSource p = .error (.unreadable e) ↔ v.read p = .error e ∧ e ≠ .noEntry := by
  constructor
  · intro h
    cases hread : v.read p with
    | error e' =>
      rw [readSource_of_error hread, Except.error.injEq,
        SourceError.ofFileError_eq_unreadable_iff] at h
      exact ⟨congrArg Except.error h.1, h.2⟩
    | ok bytes =>
      rw [readSource_of_ok hread] at h
      cases hdecode : Utf8.decode bytes <;> rw [hdecode] at h <;> cases h
  · rintro ⟨hread, hother⟩
    rw [readSource_of_error hread, SourceError.ofFileError_eq_unreadable_iff.2 ⟨rfl, hother⟩]

/-- A file is no text exactly when its bytes stop being text, and where they do. -/
theorem readSource_eq_notText_iff :
    v.readSource p = .error (.notText f) ↔ ∃ bytes, v.read p = .ok bytes ∧ Utf8.Stops bytes f := by
  simp only [← Utf8.decode_eq_error_iff]
  constructor
  · intro h
    cases hread : v.read p with
    | error e =>
      rw [readSource_of_error hread, Except.error.injEq] at h
      exact absurd h (SourceError.ofFileError_ne_notText e f)
    | ok bytes =>
      rw [readSource_of_ok hread] at h
      cases hdecode : Utf8.decode bytes <;> rw [hdecode] at h <;> cases h
      exact ⟨bytes, rfl, hdecode⟩
  · rintro ⟨bytes, hread, hdecode⟩
    rw [readSource_of_ok hread, hdecode]
    rfl

/-! ## The report -/

theorem validateFile_of_ok (h : v.readSource p = .ok t) : v.validateFile p = t.validate p := by
  rw [validateFile, h]

theorem validateFile_of_error (h : v.readSource p = .error s) :
    v.validateFile p = .failed p (s.message p) := by
  rw [validateFile, h]

theorem path_validateFile : (v.validateFile p).path = p := by
  rw [validateFile]
  split <;> rfl

/-- A source fails exactly when it is blank or a line of it replaces a table. -/
theorem status_validate_iff :
    (t.validate p).status = .failure ↔ t.OnlyBlanks ∨ t.ReplacesTable := by
  rw [Text.status_validate.1, Ne, Text.errors_validate_eq_nil_iff, Classical.not_not,
    Text.replacesTable_iff]

/-- The form of a text is wrong exactly when the text is. -/
theorem defective_encode_iff :
    Defective (.ok (Utf8.encode t)) ↔ t.OnlyBlanks ∨ t.ReplacesTable := by
  constructor
  · intro h
    generalize hread : Except.ok (Utf8.encode t) = read at h
    cases h with
    | unreadable e => cases hread
    | notText h => exact absurd (Except.ok.inj hread).symm (h t)
    | blank h => exact .inl (Utf8.encode_injective (Except.ok.inj hread) ▸ h)
    | replaced h => exact .inr (Utf8.encode_injective (Except.ok.inj hread) ▸ h)
  · rintro (h | h)
    · exact .blank h
    · exact .replaced h

/-- **A report is a failure exactly when what reading the file gives is wrong.** -/
theorem status_validateFile_iff :
    (v.validateFile p).status = .failure ↔ Defective (v.read p) := by
  cases h : v.readSource p with
  | error e =>
    rw [validateFile, h]
    refine iff_of_true rfl ?_
    cases hread : v.read p with
    | error e => exact .unreadable e
    | ok bytes =>
      refine .notText fun t ht => ?_
      rw [readSource_eq_ok_iff.2 (ht ▸ hread)] at h
      cases h
  | ok t =>
    rw [validateFile, h, readSource_eq_ok_iff.1 h, defective_encode_iff]
    exact status_validate_iff

/-! ## What is said of a file -/

/-- **What is said of a file**, by what there is to read at its path. -/
inductive Said (v : View) (p : Path) : Report → Prop
  | text {t : Text} (hread : v.read p = .ok (Utf8.encode t)) : Said v p (t.validate p)
  | notFound (hfind : v.find p = .error .noEntry) :
      Said v p ⟨p, .failure, ["file not found: " ++ p.display], []⟩
  | unreadable {e : FileError} (hread : v.read p = .error e) (hother : e ≠ .noEntry) :
      Said v p ⟨p, .failure, ["failed to read " ++ p.display ++ ": " ++ e.message], []⟩
  | incomplete {bytes good rest : Bytes} (hread : v.read p = .ok bytes)
      (hbytes : bytes = good ++ rest) (hgood : Utf8.IsLongest Utf8.IsText good bytes)
      (hrest : Utf8.IsStart rest) (hne : rest ≠ []) :
      Said v p ⟨p, .failure, [p.display ++ " is not valid UTF-8: "
        ++ ("incomplete utf-8 byte sequence from index " ++ toString good.length)], []⟩
  | invalid {bytes good rest start : Bytes} (hread : v.read p = .ok bytes)
      (hbytes : bytes = good ++ rest) (hgood : Utf8.IsLongest Utf8.IsText good bytes)
      (hrest : ¬Utf8.IsStart rest) (hstart : Utf8.IsLongest Utf8.IsStart start rest) :
      Said v p ⟨p, .failure, [p.display ++ " is not valid UTF-8: "
        ++ ("invalid utf-8 sequence of " ++ toString (max 1 start.length) ++ " bytes from index "
          ++ toString good.length)], []⟩

theorem said_validateFile (v : View) (p : Path) : Said v p (v.validateFile p) := by
  cases hsource : v.readSource p with
  | ok t =>
    rw [validateFile_of_ok hsource]
    exact .text (readSource_eq_ok_iff.1 hsource)
  | error s =>
    rw [validateFile_of_error hsource]
    cases s with
    | notFound => exact .notFound (readSource_eq_notFound_iff.1 hsource)
    | unreadable e =>
      obtain ⟨hread, hother⟩ := readSource_eq_unreadable_iff.1 hsource
      exact .unreadable hread hother
    | notText f =>
      obtain ⟨bytes, hread, hstops⟩ := readSource_eq_notText_iff.1 hsource
      cases hstops with
      | incomplete hbytes hgood hrest hne => exact .incomplete hread hbytes hgood hrest hne
      | invalid hbytes hgood hrest hstart => exact .invalid hread hbytes hgood hrest hstart

theorem Said.eq_validateFile {r : Report} (h : Said v p r) : v.validateFile p = r := by
  cases h with
  | text hread => exact validateFile_of_ok (readSource_eq_ok_iff.2 hread)
  | notFound hfind => exact validateFile_of_error (readSource_eq_notFound_iff.2 hfind)
  | unreadable hread hother =>
    exact validateFile_of_error (readSource_eq_unreadable_iff.2 ⟨hread, hother⟩)
  | incomplete hread hbytes hgood hrest hne =>
    exact validateFile_of_error
      (readSource_eq_notText_iff.2 ⟨_, hread, .incomplete hbytes hgood hrest hne⟩)
  | invalid hread hbytes hgood hrest hstart =>
    exact validateFile_of_error
      (readSource_eq_notText_iff.2 ⟨_, hread, .invalid hbytes hgood hrest hstart⟩)

/-- **The report on a file is what its content calls for**, one of five kinds for every content. -/
theorem validateFile_exact (v : View) (p : Path) :
    (∀ r, v.validateFile p = r ↔ Said v p r) ∧
    (∀ t t', v.read p = .ok (Utf8.encode t) → v.read p = .ok (Utf8.encode t') → t = t') ∧
    (v.validateFile p = ⟨p, .failure, ["file not found: " ++ p.display], []⟩ ↔
      v.find p = .error .noEntry) := by
  refine ⟨fun r => ⟨?_, Said.eq_validateFile⟩, fun t t' ht ht' => ?_, fun h => ?_, fun h => ?_⟩
  · rintro rfl
    exact said_validateFile v p
  · exact Utf8.encode_injective (Except.ok.inj (ht.symm.trans ht'))
  · cases hsource : v.readSource p with
    | ok t =>
      rw [validateFile_of_ok hsource] at h
      exact absurd (congrArg Report.errors h) Text.errors_validate_ne
    | error s =>
      rw [validateFile_of_error hsource] at h
      have hmessage : s.message p = "file not found: " ++ p.display :=
        (List.cons.inj (congrArg Report.errors h)).1
      rw [SourceError.message_eq_notFound_iff.1 hmessage] at hsource
      exact readSource_eq_notFound_iff.1 hsource
  · exact (Said.notFound h).eq_validateFile

end View

end SqlSanity
