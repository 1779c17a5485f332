import Mathlib.Data.List.Forall2
import SqlSanity.Execution
import SqlSanity.Proofs.Json.Reader
import SqlSanity.Proofs.Text.Utf8

/-!
# Proofs/Json/Payload — the data of a document is recovered from its text

A document holds a report, a batch, a survey or a run.  It can be written exactly when all paths in
it are text.  Whoever reads it looks the fields of each object up by their names and finds the data
that was written, down to the characters of each string; so two different payloads never give the
same text.

* `Payload.exists_toJson?_iff` — which payloads can be written;
* `Payload.ofJson?_of_toJson?` — the JSON form of a payload is read as the payload;
* `Payload.documentText_readBack` — the text of a document gives back its flag and its payload.
-/

namespace SqlSanity

/-! ## Paths that are text -/

/-- The path is spelled by a string. -/
def Path.IsText (p : Path) : Prop := ∃ s : String, p = .ofString s

theorem Path.toString?_eq_some_iff {p : Path} {s : String} :
    p.toString? = some s ↔ p = .ofString s := by
  rw [toString?, Option.map_eq_some_iff]
  constructor
  · rintro ⟨t, ht, rfl⟩
    rw [ofString, String.toList_ofList, ← Utf8.decode?_eq_some_iff.1 ht]
  · rintro rfl
    exact ⟨s.toList, Utf8.decode?_eq_some_iff.2 rfl, String.ofList_toList⟩

theorem Path.isText_iff {p : Path} : p.IsText ↔ ∃ s, p.toString? = some s := by
  simp only [toString?_eq_some_iff]
  rfl

/-! ## Lists -/

/-- All of a list is mapped when each of it is. -/
theorem mapM_eq_some_iff {α β : Type} {f : α → Option β} : ∀ {xs : List α} {ys : List β},
    xs.mapM f = some ys ↔ List.Forall₂ (fun x y => f x = some y) xs ys
  | [], ys => by simp [eq_comm]
  | x :: xs, ys => by
    simp only [List.mapM_cons, Option.bind_eq_bind, Option.bind_eq_some_iff, Option.pure_def,
      Option.some.injEq, mapM_eq_some_iff, List.forall₂_cons_left_iff]
    constructor
    · rintro ⟨y, hy, ys, hys, rfl⟩
      exact ⟨y, ys, hy, hys, rfl⟩
    · rintro ⟨y, ys, hy, hys, rfl⟩
      exact ⟨y, hy, ys, hys, rfl⟩

theorem exists_mapM_iff {α β : Type} {f : α → Option β} : ∀ {xs : List α},
    (∃ ys, xs.mapM f = some ys) ↔ ∀ x ∈ xs, ∃ y, f x = some y
  | [] => by simp
  | x :: xs => by
    have ih := @exists_mapM_iff α β f xs
    simp only [mapM_eq_some_iff, List.forall₂_cons_left_iff, List.forall_mem_cons] at ih ⊢
    rw [← ih]
    constructor
    · rintro ⟨_, y, ys, hy, hys, -⟩
      exact ⟨⟨y, hy⟩, ys, hys⟩
    · rintro ⟨⟨y, hy⟩, ys, hys⟩
      exact ⟨_, y, ys, hy, hys, rfl⟩

/-- What is undone for each of a list is undone for the list. -/
theorem mapM_of_mapM {α β : Type} {f : α → Option β} {g : β → Option α}
    (h : ∀ {x y}, f x = some y → g y = some x) {xs : List α} {ys : List β}
    (hxs : xs.mapM f = some ys) : ys.mapM g = some xs :=
  mapM_eq_some_iff.2 ((mapM_eq_some_iff.1 hxs).imp fun _ _ => h).flip

/-! ## Looking into a value -/

namespace Json

/-- The value of a field. -/
def field? (name : String) : Json → Option Json
  | .object fields => fields.lookup name
  | _ => none

/-- The string that a value is. -/
def string? : Json → Option String
  | .string s => some s
  | _ => none

/-- The flag that a value is. -/
def flag? : Json → Option Bool
  | .bool b => some b
  | _ => none

/-- The items of an array. -/
def items? : Json → Option (List Json)
  | .array items => some items
  | _ => none

/-- The strings in an array of strings. -/
def strings? (j : Json) : Option (List String) := j.items?.bind fun items => items.mapM string?

theorem strings?_strings (ss : List String) : (strings ss).strings? = some ss := by
  have hss : (ss.map Json.string).mapM string? = some ss :=
    mapM_eq_some_iff.2 (List.forall₂_map_left_iff.2 (List.forall₂_same.2 fun _ _ => rfl))
  exact hss

end Json

/-- The status of a name. -/
def Status.ofName? (s : String) : Option Status :=
  if s = "success" then some success
  else if s = "warning" then some warning
  else if s = "failure" then some failure
  else none

@[simp] theorem Status.ofName?_name (s : Status) : ofName? s.name = some s := by
  cases s <;> rfl

/-! ## Reading the data of a document -/

/-- The report that a value describes. -/
def Report.ofJson? (j : Json) : Option Report := do
  let path ← (← j.field? "file_path").string?
  let status ← Status.ofName? (← (← j.field? "status").string?)
  let errors ← (← j.field? "errors").strings?
  let warnings ← (← j.field? "warnings").strings?
  return ⟨.ofString path, status, errors, warnings⟩

/-- The batch that a value describes. -/
def Batch.ofJson? (j : Json) : Option Batch := do
  let allValid ← (← j.field? "all_valid").flag?
  let reports ← (← (← j.field? "reports").items?).mapM Report.ofJson?
  return ⟨allValid, reports⟩

/-- What a survey found by its value, nothing when it is `null`. -/
def Survey.resultOfJson? : Json → Option (Option Batch)
  | .null => some none
  | j => (Batch.ofJson? j).map some

/-- The survey that a value describes. -/
def Survey.ofJson? (j : Json) : Option Survey := do
  let name ← (← j.field? "name").string?
  let path ← (← j.field? "path").string?
  let found ← (← j.field? "found").flag?
  let result ← Survey.resultOfJson? (← j.field? "result")
  return ⟨name, .ofString path, found, result⟩

/-- The run that a value describes. -/
def Run.ofJson? (j : Json) : Option Run := do
  let root ← (← j.field? "root").string?
  let directories ← (← (← j.field? "directories").items?).mapM Survey.ofJson?
  let allValid ← (← j.field? "all_valid").flag?
  return ⟨.ofString root, directories, allValid⟩

/-- **The JSON form of a report is read as the report.** -/
theorem Report.ofJson?_of_toJson? {r : Report} {j : Json} (h : r.toJson? = some j) :
    ofJson? j = some r := by
  obtain ⟨path, hpath, rfl⟩ := Option.map_eq_some_iff.1 h
  rw [Path.toString?_eq_some_iff] at hpath
  obtain ⟨_, status, errors, warnings⟩ := r
  subst hpath
  simp [ofJson?, Json.field?, Json.string?, Json.strings?_strings, List.lookup_cons]

/-- The JSON form of a batch is read as the batch. -/
theorem Batch.ofJson?_of_toJson? {b : Batch} {j : Json} (h : b.toJson? = some j) :
    ofJson? j = some b := by
  obtain ⟨reports, hreports, rfl⟩ := Option.map_eq_some_iff.1 h
  have hback := mapM_of_mapM Report.ofJson?_of_toJson? hreports
  simp [ofJson?, Json.field?, Json.flag?, Json.items?, List.lookup_cons, hback]

/-- What a survey found is read as that, `null` as nothing. -/
theorem Survey.resultOfJson?_of_resultJson? {s : Survey} {j : Json} (h : s.resultJson? = some j) :
    resultOfJson? j = some s.result := by
  rw [resultJson?] at h
  split at h
  · next hnone =>
    obtain rfl := Option.some.inj h
    rw [hnone, resultOfJson?]
  · next b hsome =>
    have hback := Batch.ofJson?_of_toJson? h
    obtain ⟨reports, -, rfl⟩ := Option.map_eq_some_iff.1 h
    rw [hsome, resultOfJson?, hback, Option.map_some]
    exact fun h => nomatch h

/-- **The JSON form of a survey is read as the survey.** -/
theorem Survey.ofJson?_of_toJson? {s : Survey} {j : Json} (h : s.toJson? = some j) :
    ofJson? j = some s := by
  obtain ⟨path, hpath, h⟩ := Option.bind_eq_some_iff.1 h
  obtain ⟨result, hresult, rfl⟩ := Option.map_eq_some_iff.1 h
  have hback := resultOfJson?_of_resultJson? hresult
  rw [Path.toString?_eq_some_iff] at hpath
  obtain ⟨name, _, found, _⟩ := s
  subst hpath
  simp [ofJson?, Json.field?, Json.string?, Json.flag?, List.lookup_cons, hback]

/-- **The JSON form of a run is read as the run.** -/
theorem Run.ofJson?_of_toJson? {r : Run} {j : Json} (h : r.toJson? = some j) :
    ofJson? j = some r := by
  obtain ⟨root, hroot, h⟩ := Option.bind_eq_some_iff.1 h
  obtain ⟨directories, hdirectories, rfl⟩ := Option.map_eq_some_iff.1 h
  have hback := mapM_of_mapM Survey.ofJson?_of_toJson? hdirectories
  rw [Path.toString?_eq_some_iff] at hroot
  obtain ⟨_, _, allValid⟩ := r
  subst hroot
  simp [ofJson?, Json.field?, Json.string?, Json.flag?, Json.items?, List.lookup_cons, hback]

/-! ## Payloads -/

/-- The data of a document. -/
inductive Payload
  | report (r : Report)
  | batch (b : Batch)
  | survey (s : Survey)
  | run (r : Run)

/-- The paths of the reports of a batch. -/
def Batch.paths (b : Batch) : List Path := b.reports.map Report.path

/-- The path of a survey and those of the reports in it. -/
def Survey.paths (s : Survey) : List Path := s.path :: (s.result.elim [] Batch.paths)

/-- The root of a run and the paths of its surveys. -/
def Run.paths (r : Run) : List Path := r.root :: r.directories.flatMap Survey.paths

namespace Payload

/-- The paths in a payload. -/
def paths : Payload → List Path
  | report r => [r.path]
  | batch b => b.paths
  | survey s => s.paths
  | run r => r.paths

/-- All is well with what a payload is about. -/
def isValid : Payload → Bool
  | report r => r.isValid
  | batch b => b.allValid
  | survey s => s.isValid
  | run r => r.allValid

/-- The JSON form of a payload. -/
def toJson? : Payload → Option Json
  | report r => r.toJson?
  | batch b => b.toJson?
  | survey s => s.toJson?
  | run r => r.toJson?

/-- The payload that a value describes: its kind is told by a field that no other kind has. -/
def ofJson? (j : Json) : Option Payload :=
  if (j.field? "file_path").isSome then (Report.ofJson? j).map report
  else if (j.field? "reports").isSome then (Batch.ofJson? j).map batch
  else if (j.field? "found").isSome then (Survey.ofJson? j).map survey
  else (Run.ofJson? j).map run

/-- **The JSON form of a payload is read as the payload**, of whichever kind it is. -/
theorem ofJson?_of_toJson? {j : Json} : ∀ {x : Payload}, x.toJson? = some j → ofJson? j = some x
  | report r, h => by
    have hback := Report.ofJson?_of_toJson? h
    obtain ⟨_, -, rfl⟩ := Option.map_eq_some_iff.1 h
    exact congrArg (Option.map report) hback
  | batch b, h => by
    have hback := Batch.ofJson?_of_toJson? h
    obtain ⟨_, -, rfl⟩ := Option.map_eq_some_iff.1 h
    exact congrArg (Option.map batch) hback
  | survey s, h => by
    have hback := Survey.ofJson?_of_toJson? h
    obtain ⟨_, -, h⟩ := Option.bind_eq_some_iff.1 h
    obtain ⟨_, -, rfl⟩ := Option.map_eq_some_iff.1 h
    exact congrArg (Option.map survey) hback
  | run r, h => by
    have hback := Run.ofJson?_of_toJson? h
    obtain ⟨_, -, h⟩ := Option.bind_eq_some_iff.1 h
    obtain ⟨_, -, rfl⟩ := Option.map_eq_some_iff.1 h
    exact congrArg (Option.map run) hback

end Payload

/-! ## Which payloads can be written -/

theorem Report.exists_toJson?_iff {r : Report} : (∃ j, r.toJson? = some j) ↔ r.path.IsText := by
  rw [Path.isText_iff, toJson?]
  cases r.path.toString? <;> simp

theorem Batch.exists_toJson?_iff {b : Batch} :
    (∃ j, b.toJson? = some j) ↔ ∀ p ∈ b.paths, p.IsText := by
  have hreports : (∃ j, b.toJson? = some j) ↔ ∃ js, b.reports.mapM Report.toJson? = some js := by
    rw [toJson?]
    cases b.reports.mapM Report.toJson? <;> simp
  rw [hreports, exists_mapM_iff, paths, List.forall_mem_map]
  exact forall₂_congr fun r _ => Report.exists_toJson?_iff

theorem Survey.exists_toJson?_iff {s : Survey} :
    (∃ j, s.toJson? = some j) ↔ ∀ p ∈ s.paths, p.IsText := by
  have hresult : (∃ j, s.resultJson? = some j) ↔ ∀ p ∈ s.result.elim [] Batch.paths, p.IsText := by
    rw [resultJson?]
    cases s.result with
    | none => simp
    | some b => exact Batch.exists_toJson?_iff
  have hparts : (∃ j, s.toJson? = some j) ↔
      (∃ path, s.path.toString? = some path) ∧ ∃ j, s.resultJson? = some j := by
    rw [toJson?]
    cases s.path.toString? <;> cases s.resultJson? <;> simp
  rw [hparts, ← Path.isText_iff, hresult, paths, List.forall_mem_cons]

theorem Run.exists_toJson?_iff {r : Run} :
    (∃ j, r.toJson? = some j) ↔ ∀ p ∈ r.paths, p.IsText := by
  have hparts : (∃ j, r.toJson? = some j) ↔ (∃ root, r.root.toString? = some root) ∧
      ∃ js, r.directories.mapM Survey.toJson? = some js := by
    rw [toJson?]
    cases r.root.toString? <;> cases r.directories.mapM Survey.toJson? <;> simp
  rw [hparts, ← Path.isText_iff, exists_mapM_iff, paths, List.forall_mem_cons,
    List.forall_mem_flatMap]
  exact and_congr_right fun _ => forall₂_congr fun s _ => Survey.exists_toJson?_iff

/-- **A payload can be written exactly when all paths in it are text.** -/
theorem Payload.exists_toJson?_iff : ∀ {x : Payload},
    (∃ j, x.toJson? = some j) ↔ ∀ p ∈ x.paths, p.IsText
  | report _ => by
    rw [paths, List.forall_mem_singleton]
    exact Report.exists_toJson?_iff
  | batch _ => Batch.exists_toJson?_iff
  | survey _ => Survey.exists_toJson?_iff
  | run _ => Run.exists_toJson?_iff

/-! ## Documents -/

theorem documentText_eq_ok_iff {ok : Bool} {data : Option Json} {t : String} :
    documentText ok data = .ok t ↔ ∃ j, data = some j ∧ t = (Json.document ok j).text := by
  cases data <;> simp [documentText, eq_comm]

/-- The flag and the payload of a document are found under their names. -/
theorem Payload.ofJson?_document (ok : Bool) {x : Payload} {j : Json} (h : x.toJson? = some j) :
    ((Json.document ok j).field? "ok").bind Json.flag? = some ok ∧
      ((Json.document ok j).field? "data").bind ofJson? = some x :=
  ⟨rfl, ofJson?_of_toJson? h⟩

/-- **The text of a document is read back.**  It is a document of one value only, and in that value
the flag and the whole payload are found again; so no other flag and no other payload has that
text. -/
theorem Payload.documentText_readBack (ok : Bool) (x : Payload) (h : ∀ p ∈ x.paths, p.IsText) :
    ∃ t d, documentText ok x.toJson? = .ok t ∧
      (Json.IsDocument d t ∧ ∀ d', Json.IsDocument d' t → d' = d) ∧
      Json.read? t = some d ∧
      (d.field? "ok").bind Json.flag? = some ok ∧ (d.field? "data").bind Payload.ofJson? = some x ∧
      ∀ ok' x', documentText ok' x'.toJson? = .ok t → ok' = ok ∧ x' = x := by
  obtain ⟨j, hj⟩ := exists_toJson?_iff.2 h
  obtain ⟨hok, hdata⟩ := ofJson?_document ok hj
  have hread := Json.read?_text (Json.document ok j)
  have hdocument := Json.isDocument_text (Json.document ok j) "" Json.isLayout_nil
  rw [String.append_empty] at hdocument
  refine ⟨_, _, documentText_eq_ok_iff.2 ⟨j, hj, rfl⟩, ⟨hdocument, fun d' hd' => ?_⟩, hread, hok,
    hdata, fun ok' x' htext => ?_⟩
  · rw [Json.read?_of_isDocument hd'] at hread
    exact Option.some.inj hread
  · obtain ⟨j', hj', htext⟩ := documentText_eq_ok_iff.1 htext
    obtain ⟨hok', hdata'⟩ := ofJson?_document ok' hj'
    have hsame : Json.document ok j = Json.document ok' j' := by
      rw [htext, Json.read?_text] at hread
      exact (Option.some.inj hread).symm
    rw [← hsame, hok, Option.some.injEq] at hok'
    rw [← hsame, hdata, Option.some.injEq] at hdata'
    exact ⟨hok'.symm, hdata'.symm⟩

/-- A run with what is odd to write: quotes, a backslash, control characters, U+007F and characters
beyond ASCII, a directory that was not there, and lists with nothing in them. -/
def Payload.oddRun : Payload :=
  .run ⟨.ofString "/r", [
    ⟨"a\"b\\", .ofString "/r/é", true, some ⟨false, [
      ⟨.ofString "/r/é/\u0001.sql", .failure, ["\x08\x0c\n\r\t\u001f\u007f😀", ""],
        []⟩]⟩⟩,
    ⟨"", .ofString "", true, some ⟨true, []⟩⟩,
    ⟨"src", .ofString "/r/src", false, none⟩], false⟩

/-- It is read back from its document. -/
theorem Payload.documentText_readBack_oddRun : (∀ p ∈ oddRun.paths, p.IsText) ∧
    ∃ t d, documentText false oddRun.toJson? = .ok t ∧ Json.IsDocument d t ∧
      Json.read? t = some d ∧ (d.field? "data").bind Payload.ofJson? = some oddRun := by
  have htext : ∀ p ∈ oddRun.paths, p.IsText := by
    intro p hp
    simp only [oddRun, paths, Run.paths, Survey.paths, Batch.paths, List.flatMap_cons,
      List.flatMap_nil, Option.elim, List.map_cons, List.map_nil, List.cons_append, List.nil_append,
      List.mem_cons, List.not_mem_nil, or_false] at hp
    rcases hp with rfl | rfl | rfl | rfl | rfl <;> exact ⟨_, rfl⟩
  obtain ⟨t, d, ht, ⟨hdocument, -⟩, hread, -, hdata, -⟩ := documentText_readBack false oddRun htext
  exact ⟨htext, t, d, ht, hdocument, hread, hdata⟩

end SqlSanity
