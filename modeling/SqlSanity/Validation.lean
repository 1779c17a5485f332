import SqlSanity.Report
import SqlSanity.Sql.Block
import SqlSanity.Sql.Replacement

/-!
# Validation — what is wrong with a source, and what is odd about it

A blank source is objected to and looked at no further.  Any other source is objected to for each
line that replaces a table, and doubted when it names no object or when its openings and closings
are more than two apart.

* `Text.findings` — what is found in a source;
* `Text.validate` — the report on a source.
-/

namespace SqlSanity

/-- What makes a source fail. -/
inductive Objection
  | emptyFile
  | replacedTable (line : Nat)
  deriving DecidableEq, Repr

/-- The objection in words. -/
def Objection.message : Objection → String
  | emptyFile => "file is empty"
  | replacedTable line =>
    "line " ++ toString line
      ++ ": 'CREATE OR REPLACE TABLE' is invalid syntax, use 'CREATE TABLE' instead"

/-- What makes a source look odd. -/
inductive Doubt
  | noObject
  | imbalance (openings closings : Nat)
  deriving DecidableEq, Repr

/-- The doubt in words. -/
def Doubt.message : Doubt → String
  | noObject => "file may not contain valid PL/SQL objects"
  | imbalance openings closings =>
    "possible BEGIN/END imbalance: " ++ toString openings ++ " BEGIN, ~" ++ toString closings
      ++ " END (may be a false positive in packages)"

/-- What is found in a source. -/
structure Findings where
  objections : List Objection
  doubts : List Doubt
  deriving DecidableEq, Repr

/-- How far openings and closings may be apart. -/
def balanceTolerance : Nat := 2

/-- The two counts are too far apart. -/
def isUnbalanced (openings closings : Nat) : Bool :=
  openings > closings + balanceTolerance || closings > openings + balanceTolerance

namespace Text

/-- The doubts about a source that is not blank. -/
def doubts (t : Text) : List Doubt :=
  (if t.namesObject then [] else [.noObject])
    ++ (if isUnbalanced t.openings t.closings then [.imbalance t.openings t.closings] else [])

/-- What is found in a source. -/
def findings (t : Text) : Findings :=
  if t.isBlank then ⟨[.emptyFile], []⟩
  else ⟨t.replacementLines.map .replacedTable, t.doubts⟩

/-- The report on a source. -/
def validate (t : Text) (path : Path) : Report :=
  Report.ofFindings path (t.findings.objections.map Objection.message)
    (t.findings.doubts.map Doubt.message)

end Text

end SqlSanity
