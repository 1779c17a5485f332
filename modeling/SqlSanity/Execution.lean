import SqlSanity.Arguments.Help
import SqlSanity.Arguments.Parsing
import SqlSanity.Json.Document
import SqlSanity.Rendering
import SqlSanity.Scan

/-!
# Execution — running a command, and what a process makes of a command line

A command looks at the file system, prints, and comes to a verdict, or it fails on the way with what
it has printed by then.  In JSON it prints one document with the verdict beside the payload; the
whole text of the document is there before any of it is printed.  The process ends with 0 when all
is well, with 1 on a failed check or a failed command, and with 2 on a wrong command line.

* `Printing` — the steps of a command;
* `Invocation.target_of_root` — a path of a command is seen from the root, absolute or not;
* `View.perform` — a command and its outcome;
* `View.execute` — a command line, its exit code and its output.
-/

namespace SqlSanity

/-- Why a command fails: the working directory is gone, or a path of a JSON document is no text. -/
inductive CommandError
  | noWorkingDirectory (e : FileError)
  | pathNotText
  deriving DecidableEq, Repr

/-- The cause in words. -/
def CommandError.message : CommandError → String
  | noWorkingDirectory e => e.message
  | pathNotText => "path contains invalid UTF-8 characters"

/-- What a command comes to: is all well, and what is printed. -/
structure Outcome where
  ok : Bool
  output : String
  deriving DecidableEq, Repr

/-- How a command fails: why, and what is printed by then. -/
structure Failure where
  cause : CommandError
  output : String
  deriving DecidableEq, Repr

/-- What a document comes to: it is all that is printed, or nothing is. -/
def Outcome.ofDocument (ok : Bool) : Option Json → Except Failure Outcome
  | none => .error ⟨.pathNotText, ""⟩
  | some data => .ok ⟨ok, (Json.document ok data).text ++ "\n"⟩

theorem Outcome.ofDocument_eq_ok_iff {ok : Bool} {data : Option Json} {o : Outcome} :
    ofDocument ok data = .ok o ↔
      ∃ j, data = some j ∧ o = ⟨ok, (Json.document ok j).text ++ "\n"⟩ := by
  cases data <;> simp [ofDocument, eq_comm]

theorem Outcome.ofDocument_eq_error_iff {ok : Bool} {data : Option Json} {e : Failure} :
    ofDocument ok data = .error e ↔ data = none ∧ e = ⟨.pathNotText, ""⟩ := by
  cases data <;> simp [ofDocument, eq_comm]

/-! ## Printing -/

/-- The text of a document, or the failure to write a path. -/
def documentText (ok : Bool) : Option Json → Except CommandError String
  | none => .error .pathNotText
  | some data => .ok ((Json.document ok data).text)

/-- The steps of a command: each prints behind what is printed already, or fails. -/
abbrev Printing := EStateM CommandError String

namespace Printing

/-- Prints a text. -/
def print (s : String) : Printing Unit := modify fun printed => printed ++ s

/-- Prints a document in lines of its own. -/
def printJson (ok : Bool) (data : Option Json) : Printing Unit := do
  let text ← MonadExcept.ofExcept (documentText ok data)
  print (text ++ "\n")

/-- Prints what a command has to say, as a document or as text, and ends with its verdict. -/
def conclude (json ok : Bool) (data : Option Json) (text : Printing Unit) : Printing Bool := do
  if json then printJson ok data else text
  return ok

/-- What the steps of a command come to when nothing is printed before them. -/
def outcome (steps : Printing Bool) : Except Failure Outcome :=
  match steps.run "" with
  | .ok ok printed => .ok ⟨ok, printed⟩
  | .error cause printed => .error ⟨cause, printed⟩

theorem run_print (s printed : String) : (print s).run printed = .ok () (printed ++ s) := rfl

/-- **A document is printed whole or not at all**: one that cannot be written leaves the output as
it was. -/
theorem run_printJson (ok : Bool) (data : Option Json) (printed : String) :
    (printJson ok data).run printed = match data with
      | none => .error .pathNotText printed
      | some data => .ok () (printed ++ ((Json.document ok data).text ++ "\n")) := by
  cases data <;> rfl

/-- The verdict changes nothing about what is printed before it. -/
theorem run_conclude (json ok : Bool) (data : Option Json) (text : Printing Unit)
    (printed : String) : (conclude json ok data text).run printed =
      match (if json then printJson ok data else text).run printed with
      | .ok _ printed => .ok ok printed
      | .error e printed => .error e printed := by
  have hbind : conclude json ok data text =
      (if json then printJson ok data else text) >>= fun _ => pure ok := by
    cases json <;> rfl
  rw [hbind, EStateM.run_bind]
  cases (if json then printJson ok data else text).run printed <;> rfl

/-- **A command that only has its conclusion left comes to a document or to text.** -/
theorem outcome_conclude {text : Printing Unit} {s : String} (h : text.run "" = .ok () s)
    (json ok : Bool) (data : Option Json) : (conclude json ok data text).outcome =
      if json then Outcome.ofDocument ok data else .ok ⟨ok, s⟩ := by
  rw [outcome, run_conclude]
  cases json with
  | false =>
    rw [if_neg Bool.false_ne_true, h]
    rfl
  | true =>
    rw [if_pos rfl, run_printJson]
    cases data with
    | none => rfl
    | some data =>
      simp only [String.empty_append]
      rfl

end Printing

/-! ## Commands -/

/-- The path of a command: a relative one is seen from the root if one is given. -/
def Invocation.target (i : Invocation) (p : Path) : Path :=
  match i.root with
  | some root => if p.isRelative then root.join p else p
  | none => p

/-- **Every path is seen from the root**, since an absolute one is the same from everywhere. -/
theorem Invocation.target_of_root {i : Invocation} {root : Path} (h : i.root = some root)
    (p : Path) : i.target p = root.join p := by
  rw [target, h]
  cases hp : p.isAbsolute with
  | false => simp [Path.isRelative, hp]
  | true => simp [Path.isRelative, hp, Path.join_of_isAbsolute hp]

namespace View

open Printing

/-- Scans the named directories, the default ones when none are named. -/
def performScan (v : View) (i : Invocation) (names : List String) : Printing Bool := do
  let names := if names.isEmpty then defaultDirectories else names
  let root ← MonadExcept.ofExcept ((v.resolveRoot i.root).mapError .noWorkingDirectory)
  let run := v.run root names
  conclude i.json run.allValid run.toJson? (print run.render)

/-- Checks one directory tree. -/
def performDirectory (v : View) (i : Invocation) (p : Path) : Printing Bool := do
  let path := i.target p
  let survey := v.survey path.display path
  conclude i.json survey.isValid survey.toJson? do
    print banner
    print survey.render
    print (verdict survey.isValid)

/-- Checks one file. -/
def performFile (v : View) (i : Invocation) (p : Path) : Printing Bool := do
  let report := v.validateFile (i.target p)
  conclude i.json report.isValid report.toJson? (print (report.render ++ "\n"))

/-- What the check of a directory comes to. -/
theorem outcome_performDirectory (v : View) (i : Invocation) (p : Path) :
    (v.performDirectory i p).outcome =
      let survey := v.survey (i.target p).display (i.target p)
      if i.json then Outcome.ofDocument survey.isValid survey.toJson?
      else .ok ⟨survey.isValid, banner ++ survey.render ++ verdict survey.isValid⟩ := by
  refine outcome_conclude ?_ _ _ _
  change EStateM.Result.ok () ("" ++ banner ++ _ ++ _) = _
  rw [String.empty_append]

/-- What the check of a file comes to. -/
theorem outcome_performFile (v : View) (i : Invocation) (p : Path) :
    (v.performFile i p).outcome =
      let report := v.validateFile (i.target p)
      if i.json then Outcome.ofDocument report.isValid report.toJson?
      else .ok ⟨report.isValid, report.render ++ "\n"⟩ := by
  refine outcome_conclude ?_ _ _ _
  rw [run_print, String.empty_append]

/-- Runs what a command line asks for. -/
def perform (v : View) (i : Invocation) : Except Failure Outcome :=
  match i.command with
  | none => (v.performScan i []).outcome
  | some (.scan names) => (v.performScan i names).outcome
  | some (.directory p) => (v.performDirectory i p).outcome
  | some (.file p) => (v.performFile i p).outcome

end View

/-! ## Processes -/

/-- How a process ends: its exit code, what it has printed, and the error that it ended with. -/
structure Exit where
  code : Nat
  output : String
  fatal : Option String
  deriving DecidableEq, Repr

/-- How a process ends that runs nothing: with the text that is called for, or with code 2. -/
def Refusal.exit : Refusal → Exit
  | .help topic => ⟨0, topic.text, none⟩
  | .version => ⟨0, versionText, none⟩
  | _ => ⟨2, "", none⟩

/-- How a process ends that has run a command. -/
def Exit.ofOutcome : Except Failure Outcome → Exit
  | .ok o => ⟨if o.ok then 0 else 1, o.output, none⟩
  | .error e => ⟨1, e.output, some e.cause.message⟩

/-- What a process makes of its command line. -/
def View.execute (v : View) (words : List Bytes) : Exit :=
  match Invocation.ofArguments words with
  | .error r => r.exit
  | .ok i => .ofOutcome (v.perform i)

end SqlSanity
