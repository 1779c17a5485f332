import Mathlib.Data.List.Basic
import SqlSanity.Proofs.Scan.Reports
import SqlSanity.Proofs.Text.Line
import SqlSanity.Rendering

/-!
# Proofs/Rendering — the text of a batch can be read back

The text of a batch puts blocks of lines one after the other, and a message may look like any other
line.  It can be read back all the same: no line of a block is empty, so an empty line ends it, and
within a block the place of a line and its mark say what it is.

* `Text.lines_ofLines` — the lines of a text that is made of lines;
* `Shown.ofLines?_lines` — a report is read off its lines;
* `Batch.splitOn_lines` — the paragraphs of a batch;
* `Batch.render_readBack` — the reports of a batch and the numbers about them, from its text.
-/

namespace SqlSanity

/-! ## Texts line by line -/

namespace Text

variable {ls : List Text} {l t : Text}

/-- Lines as a text: each with a line feed at its end. -/
def ofLines (ls : List Text) : Text := ls.flatMap fun l => l ++ ['\n']

@[simp] theorem ofLines_cons (l : Text) (ls : List Text) :
    ofLines (l :: ls) = l ++ '\n' :: ofLines ls := by
  simp [ofLines]

@[simp] theorem ofLines_append (ls ms : List Text) :
    ofLines (ls ++ ms) = ofLines ls ++ ofLines ms :=
  List.flatMap_append

/-- **The lines of a text are those it is made of**, and an empty one behind the last line feed. -/
theorem lines_ofLines (h : ∀ l ∈ ls, '\n' ∉ l) : lines (ofLines ls) = ls ++ [[]] := by
  induction ls with
  | nil => rfl
  | cons l ls ih =>
    rw [ofLines_cons, lines_append_lf, lines_of_not_mem (h l List.mem_cons_self),
      ih fun m hm => h m (List.mem_cons_of_mem l hm)]
    rfl

/-- **Paragraphs are told apart by the empty lines behind them.** -/
theorem splitOn_flatMap {ps : List (List Text)} (h : ∀ p ∈ ps, [] ∉ p) (rest : List Text) :
    (ps.flatMap (fun p => p ++ [[]]) ++ rest).splitOn [] = ps ++ rest.splitOn [] := by
  induction ps with
  | nil => rfl
  | cons p ps ih =>
    rw [List.flatMap_cons, List.append_assoc, List.append_assoc, List.singleton_append,
      List.splitOn_append_cons_self_of_not_mem (h p List.mem_cons_self),
      ih fun q hq => h q (List.mem_cons_of_mem p hq), List.cons_append]

/-- A number is written without line feeds. -/
theorem lf_not_mem_toDigits (n : Nat) : '\n' ∉ Nat.toDigits 10 n := fun h =>
  absurd (Nat.isDigit_of_mem_toDigits (by decide) (by decide) h) (by decide)

end Text

/-! ## The lines of a report -/

/-- What the first line of a report starts with. -/
def Status.mark (s : Status) : Text := s.tag.toList ++ [' ']

/-- What the line of an error or a warning starts with. -/
def detailMark (kind : String) : Text := ("  - " ++ kind ++ ": ").toList

namespace Report

/-- The lines of a report. -/
def lines (r : Report) : List Text :=
  (r.status.mark ++ r.path.display.toList) ::
    (r.errors.map (fun e => detailMark "error" ++ e.toList) ++
      r.warnings.map fun w => detailMark "warning" ++ w.toList)

theorem toList_render (r : Report) : r.render.toList = Text.ofLines r.lines := by
  have hdetails (kind : String) (ms : List String) :
      (String.join (ms.map (detailLine kind))).toList =
        Text.ofLines (ms.map fun m => detailMark kind ++ m.toList) := by
    induction ms with
    | nil => rfl
    | cons m ms ih =>
      rw [List.map_cons, List.map_cons, String.join_cons, String.toList_append, ih,
        Text.ofLines_cons, detailLine, detailMark]
      simp only [String.toList_append, List.append_assoc]
      rfl
  rw [render, lines, Text.ofLines_cons, Text.ofLines_append, Status.mark]
  simp only [String.toList_append, hdetails, List.append_assoc]
  rfl

/-- A report whose path, as it is displayed, and whose messages hold no line feed. -/
structure IsLineByLine (r : Report) : Prop where
  path : '\n' ∉ r.path.display.toList
  errors : ∀ e ∈ r.errors, '\n' ∉ e.toList
  warnings : ∀ w ∈ r.warnings, '\n' ∉ w.toList

instance : DecidablePred IsLineByLine := fun r =>
  decidable_of_iff ('\n' ∉ r.path.display.toList ∧ (∀ e ∈ r.errors, '\n' ∉ e.toList) ∧
    ∀ w ∈ r.warnings, '\n' ∉ w.toList)
    ⟨fun h => ⟨h.1, h.2.1, h.2.2⟩, fun h => ⟨h.path, h.errors, h.warnings⟩⟩

variable {r : Report}

theorem lf_not_mem_lines (h : r.IsLineByLine) : ∀ l ∈ r.lines, '\n' ∉ l := by
  have hmark : '\n' ∉ r.status.mark := by cases r.status <;> decide
  have herror : '\n' ∉ detailMark "error" := by decide
  have hwarning : '\n' ∉ detailMark "warning" := by decide
  intro l hl
  rw [lines, List.mem_cons, List.mem_append] at hl
  obtain rfl | hl | hl := hl
  · rw [List.mem_append, not_or]
    exact ⟨hmark, h.path⟩
  · obtain ⟨e, he, rfl⟩ := List.mem_map.1 hl
    rw [List.mem_append, not_or]
    exact ⟨herror, h.errors e he⟩
  · obtain ⟨w, hw, rfl⟩ := List.mem_map.1 hl
    rw [List.mem_append, not_or]
    exact ⟨hwarning, h.warnings w hw⟩

/-- No line of a report is empty, not even that of an empty message. -/
theorem nil_not_mem_lines (r : Report) : [] ∉ r.lines := by
  have hmark : r.status.mark ≠ [] := by cases r.status <;> decide
  have herror : detailMark "error" ≠ [] := by decide
  have hwarning : detailMark "warning" ≠ [] := by decide
  simp [lines, hmark, herror, hwarning]

end Report

/-! ## Reading a report -/

/-- What a report shows: its path as it is displayed, which is less than its bytes. -/
structure Shown where
  status : Status
  path : String
  errors : List String
  warnings : List String
  deriving DecidableEq, Repr

/-- What a report shows. -/
def Report.shown (r : Report) : Shown := ⟨r.status, r.path.display, r.errors, r.warnings⟩

/-- A line starts with the mark of the status. -/
def Status.marks (s : Status) (line : Text) : Bool := (line.dropPrefix? s.mark).isSome

namespace Shown

/-- Reads the first line of a report: a status and a path. -/
def heading? (line : Text) : Option (Status × String) :=
  [Status.success, .warning, .failure].findSome? fun s =>
    (line.dropPrefix? s.mark).map fun path => (s, String.ofList path)

/-- Reads the messages of a kind off the other lines of a report. -/
def messages (kind : String) (lines : List Text) : List String :=
  lines.filterMap fun line => (line.dropPrefix? (detailMark kind)).map String.ofList

/-- Reads a report off its lines. -/
def ofLines? : List Text → Option Shown
  | [] => none
  | line :: lines => (heading? line).map fun (status, path) =>
    ⟨status, path, messages "error" lines, messages "warning" lines⟩

/-- Reads the reports of a batch off its lines.  They are the paragraphs between the heading and the
closing line. -/
def ofBatch? (lines : List Text) : Option (List Shown) :=
  (lines.splitOn []).tail.dropLast.dropLast.mapM ofLines?

variable {r : Report} {rs : List Report}

/-- A line starts with the mark of one status only. -/
theorem dropPrefix?_mark (s s' : Status) (path : Text) :
    (s.mark ++ path).dropPrefix? s'.mark = if s = s' then some path else none := by
  split
  · next h => rw [h, List.dropPrefix?_append_of_beq _ (BEq.refl _)]
  · next h =>
    match s, s', h with
    | .success, .success, h | .warning, .warning, h | .failure, .failure, h => exact absurd rfl h
    | .success, .warning, _ | .success, .failure, _ | .warning, .success, _
    | .warning, .failure, _ | .failure, .success, _ | .failure, .warning, _ => rfl

theorem heading?_mark (s : Status) (path : Text) :
    heading? (s.mark ++ path) = some (s, String.ofList path) := by
  cases s <;> simp [heading?, dropPrefix?_mark]

theorem messages_append (kind : String) (ls ms : List Text) :
    messages kind (ls ++ ms) = messages kind ls ++ messages kind ms :=
  List.filterMap_append

/-- The messages of a kind are read from their own lines. -/
theorem messages_self (kind : String) (ms : List String) :
    messages kind (ms.map fun m => detailMark kind ++ m.toList) = ms := by
  have hread (m : String) : (((detailMark kind ++ m.toList).dropPrefix? (detailMark kind)).map
      String.ofList) = some m := by
    rw [List.dropPrefix?_append_of_beq _ (BEq.refl _), Option.map_some, String.ofList_toList]
  rw [messages, List.filterMap_map]
  simp [hread]

/-- The messages of one kind are not read from lines of the other. -/
theorem messages_other {kind kind' : String} (ms : List String)
    (h : ∀ m, (detailMark kind' ++ m).dropPrefix? (detailMark kind) = none) :
    messages kind (ms.map fun m => detailMark kind' ++ m.toList) = [] := by
  rw [messages, List.filterMap_map]
  simp [h]

/-- **A report is read off its lines**, whatever its messages look like. -/
theorem ofLines?_lines (r : Report) : ofLines? r.lines = some r.shown := by
  have herror (ms : List String) :
      messages "error" (ms.map fun m => detailMark "warning" ++ m.toList) = [] :=
    messages_other ms fun _ => rfl
  have hwarning (ms : List String) :
      messages "warning" (ms.map fun m => detailMark "error" ++ m.toList) = [] :=
    messages_other ms fun _ => rfl
  rw [Report.lines, ofLines?, heading?_mark, Option.map_some, messages_append, messages_append,
    messages_self, messages_self, herror, hwarning, List.append_nil, List.nil_append,
    String.ofList_toList, Report.shown]

theorem mapM_ofLines? (rs : List Report) :
    (rs.map Report.lines).mapM ofLines? = some (rs.map Report.shown) := by
  induction rs with
  | nil => rfl
  | cons r rs ih => simp [List.mapM_cons, ofLines?_lines, ih]

end Shown

/-! ## Batches -/

namespace Batch

variable {b : Batch} {label : String} {path : Path} {n : Nat}

/-- The first line of a batch that is not empty. -/
def headingLine (n : Nat) : Text := ("Checking " ++ toString n ++ " path(s)...").toList

/-- The last line of a batch that is not empty. -/
def closingLine (label : String) (total passed warned failed : Nat) : Text :=
  (label ++ ": " ++ toString total ++ " path(s), " ++ toString passed ++ " passed, "
    ++ toString warned ++ " with warnings, " ++ toString failed ++ " failed").toList

/-- The only line of an empty batch. -/
def emptyLine (path : Path) : Text :=
  (Status.warning.tag ++ " no .sql files found in " ++ path.display).toList

/-- The lines of a batch. -/
def lines (b : Batch) (label : String) (path : Path) : List Text :=
  if b.reports.isEmpty then [emptyLine path]
  else headingLine b.reports.length :: [] ::
    ((b.reports.map Report.lines).flatMap (fun ls => ls ++ [[]]) ++
      [closingLine label b.reports.length (b.count .success) (b.count .warning) (b.count .failure)])

theorem toList_render (b : Batch) (label : String) (path : Path) :
    (b.render label path).toList = Text.ofLines (b.lines label path) := by
  have hreports (rs : List Report) : (String.join (rs.map fun r => r.render ++ "\n")).toList =
      Text.ofLines ((rs.map Report.lines).flatMap fun ls => ls ++ [[]]) := by
    induction rs with
    | nil => rfl
    | cons r rs ih =>
      rw [List.map_cons, List.map_cons, List.flatMap_cons, String.join_cons, Text.ofLines_append,
        Text.ofLines_append, ← Report.toList_render, ← ih, String.toList_append,
        String.toList_append]
      rfl
  rw [render, lines]
  split
  · rw [emptyLine, Text.ofLines_cons]
    simp only [String.toList_append, List.append_assoc]
    rfl
  · rw [Text.ofLines_cons, Text.ofLines_cons, Text.ofLines_append, Text.ofLines_cons, ← hreports,
      headingLine, closingLine, summary]
    simp only [String.toList_append, List.append_assoc]
    rfl

theorem lf_not_mem_lines (hlabel : '\n' ∉ label.toList) (hpath : '\n' ∉ path.display.toList)
    (hreports : ∀ r ∈ b.reports, r.IsLineByLine) : ∀ l ∈ b.lines label path, '\n' ∉ l := by
  have hnumber := Text.lf_not_mem_toDigits
  rw [lines]
  split
  · simp [emptyLine, Status.tag, hpath]
  · intro l hl
    rw [List.mem_cons, List.mem_cons, List.mem_append, List.mem_singleton] at hl
    obtain rfl | rfl | hl | rfl := hl
    · simp [headingLine, hnumber]
    · exact List.not_mem_nil
    · obtain ⟨ls, hls, hl⟩ := List.mem_flatMap.1 hl
      obtain ⟨r, hr, rfl⟩ := List.mem_map.1 hls
      rw [List.mem_append, List.mem_singleton] at hl
      obtain hl | rfl := hl
      · exact Report.lf_not_mem_lines (hreports r hr) l hl
      · exact List.not_mem_nil
    · simp [closingLine, hnumber, hlabel]

/-- The lines of a batch as a text are its lines, and an empty one. -/
theorem lines_render (hlabel : '\n' ∉ label.toList) (hpath : '\n' ∉ path.display.toList)
    (hreports : ∀ r ∈ b.reports, r.IsLineByLine) :
    Text.lines (b.render label path).toList = b.lines label path ++ [[]] := by
  rw [toList_render, Text.lines_ofLines (lf_not_mem_lines hlabel hpath hreports)]

/-- **The paragraphs of a batch**: the heading, the lines of each report, the closing line. -/
theorem splitOn_lines (hne : b.reports ≠ []) : (b.lines label path ++ [[]]).splitOn [] =
    [headingLine b.reports.length] :: (b.reports.map Report.lines ++
      [[closingLine label b.reports.length (b.count .success) (b.count .warning)
        (b.count .failure)], []]) := by
  have hheading : ([] : Text) ∉ [headingLine b.reports.length] := by
    simp [headingLine]
  have hclosing : ([] : Text) ∉ [closingLine label b.reports.length (b.count .success)
      (b.count .warning) (b.count .failure)] := by
    simp [closingLine]
  have hreports : ∀ ls ∈ b.reports.map Report.lines, [] ∉ ls := by
    intro ls hls
    obtain ⟨r, -, rfl⟩ := List.mem_map.1 hls
    exact r.nil_not_mem_lines
  rw [lines, if_neg (by simpa using hne), List.cons_append, List.cons_append,
    ← List.singleton_append, List.splitOn_append_cons_self_of_not_mem hheading, List.append_assoc,
    Text.splitOn_flatMap hreports, List.splitOn_append_cons_self_of_not_mem hclosing,
    List.splitOn_nil]

/-- **A batch is read off its lines.** -/
theorem ofBatch?_lines (b : Batch) (label : String) (path : Path) :
    Shown.ofBatch? (b.lines label path ++ [[]]) = some (b.reports.map Report.shown) := by
  by_cases hne : b.reports = []
  · have hlines : b.lines label path = [emptyLine path] := by rw [lines, if_pos (by simp [hne])]
    have hempty : ([] : Text) ∉ [emptyLine path] := by simp [emptyLine]
    rw [Shown.ofBatch?, hlines, List.splitOn_append_cons_self_of_not_mem hempty, hne]
    rfl
  · rw [Shown.ofBatch?, splitOn_lines hne, List.tail_cons, List.dropLast_append_cons,
      ← Shown.mapM_ofLines?]
    simp

/-- How many blocks of lines are marked with a status. -/
def marked (s : Status) (blocks : List (List Text)) : Nat :=
  blocks.countP fun ls => ls.head?.any s.marks

/-- As many blocks are marked with a status as reports have it. -/
theorem marked_lines (b : Batch) (s : Status) :
    marked s (b.reports.map Report.lines) = b.count s := by
  rw [marked, List.countP_map, count]
  refine List.countP_congr fun r _ => ?_
  simp [Report.lines, Status.marks, Shown.dropPrefix?_mark]

/-- **The text of a batch can be read back.**  From its lines one has what each report shows, in
order, so batches that show different things have different texts.  The heading says how many blocks
of lines there are, and the closing line says that again and how many of them are marked with each
status. -/
theorem render_readBack {label : String} {path : Path} {rs : List Report}
    (hlabel : '\n' ∉ label.toList) (hpath : '\n' ∉ path.display.toList)
    (hrs : ∀ r ∈ rs, r.IsLineByLine) :
    Shown.ofBatch? (Text.lines ((ofReports rs).render label path).toList) =
        some (rs.map Report.shown) ∧
      (∀ rs', (∀ r ∈ rs', r.IsLineByLine) →
        (ofReports rs').render label path = (ofReports rs).render label path →
          rs'.map Report.shown = rs.map Report.shown) ∧
      (rs ≠ [] → ∃ blocks,
        (Text.lines ((ofReports rs).render label path).toList).splitOn [] =
          [headingLine blocks.length] :: (blocks ++ [[closingLine label blocks.length
            (marked .success blocks) (marked .warning blocks) (marked .failure blocks)], []]) ∧
        blocks.mapM Shown.ofLines? = some (rs.map Report.shown) ∧
        marked .success blocks + marked .warning blocks + marked .failure blocks =
          blocks.length) := by
  have hread {rs : List Report} (hrs : ∀ r ∈ rs, r.IsLineByLine) :
      Shown.ofBatch? (Text.lines ((ofReports rs).render label path).toList) =
        some (rs.map Report.shown) := by
    rw [lines_render hlabel hpath hrs, ofBatch?_lines]
    rfl
  have hmarked (s : Status) : marked s (rs.map Report.lines) = (ofReports rs).count s :=
    marked_lines (ofReports rs) s
  refine ⟨hread hrs, fun rs' hrs' htext => ?_, fun hne => ⟨rs.map Report.lines, ?_, ?_, ?_⟩⟩
  · have heq := hread hrs'
    rw [htext, hread hrs] at heq
    exact (Option.some.inj heq).symm
  · rw [lines_render hlabel hpath hrs, splitOn_lines hne, hmarked, hmarked, hmarked,
      List.length_map]
    rfl
  · exact Shown.mapM_ofLines? rs
  · rw [hmarked, hmarked, hmarked, List.length_map]
    exact count_add_count _

/-- Paths and messages that look like other lines do not get in the way, nor do empty ones. -/
theorem render_readBack_lookalikes :
    let rs : List Report :=
      [⟨.ofString "[SUCCESS] a.sql", .failure, ["", "  - warning: b"], ["[WARNING] c.sql"]⟩,
        ⟨.ofString "", .warning, [], [""]⟩, ⟨.ofString "d.sql", .success, [], []⟩]
    '\n' ∉ "[FAILURE] src/".toList ∧ '\n' ∉ (Path.ofString "src").display.toList ∧
      (∀ r ∈ rs, r.IsLineByLine) ∧
      Shown.ofBatch?
          (Text.lines ((ofReports rs).render "[FAILURE] src/" (.ofString "src")).toList) =
        some [⟨.failure, "[SUCCESS] a.sql", ["", "  - warning: b"], ["[WARNING] c.sql"]⟩,
          ⟨.warning, "", [], [""]⟩, ⟨.success, "d.sql", [], []⟩] := by
  intro rs
  have hlabel : '\n' ∉ "[FAILURE] src/".toList := by decide
  have hpath : '\n' ∉ (Path.ofString "src").display.toList := by decide +kernel
  have hrs : ∀ r ∈ rs, r.IsLineByLine := by decide +kernel
  refine ⟨hlabel, hpath, hrs, (render_readBack hlabel hpath hrs).1.trans ?_⟩
  decide +kernel

end Batch

end SqlSanity
