import SqlSanity.Sql.Keyword
import SqlSanity.Text.Line

/-!
# Sql/Replacement — lines that replace a table

`CREATE OR REPLACE TABLE` is no statement: a table is created, never replaced.  The check looks for
the four keywords in this order on one physical line, outside a line comment, in either case, with
white space between them and nothing else.  The phrase may be glued to other letters at both ends.

* `Text.replacementLines` — the numbers of the offending lines, from 1;
* `Text.replacementLines_pairwise` — which ascend, each line at most once.
-/

namespace SqlSanity.Text

/-- The text after some keywords, which it must start with, white space between any two. -/
def phrase? : List Keyword → Text → Option Text
  | [], t => some t
  | [k], t => k.strip? t
  | k :: ks, t => ((k.strip? t).bind dropGap?).bind (phrase? ks)

/-- The statement that no table admits. -/
def replaceTable : List Keyword := [.create, .or, .replace, .table]

/-- The phrase starts somewhere in the text. -/
def hasPhrase (ks : List Keyword) : Text → Bool
  | [] => (phrase? ks []).isSome
  | c :: t => (phrase? ks (c :: t)).isSome || hasPhrase ks t

/-- The line replaces a table in the part before its comment. -/
def replacesTable (line : Text) : Bool := hasPhrase replaceTable line.beforeComment

/-- The numbers of the lines that replace a table, counted from `n`. -/
def replacementsFrom : (n : Nat) → List Text → List Nat
  | _, [] => []
  | n, l :: ls =>
    if replacesTable l then n :: replacementsFrom (n + 1) ls else replacementsFrom (n + 1) ls

/-- The numbers of the lines of a source that replace a table; the first line is line 1. -/
def replacementLines (t : Text) : List Nat := replacementsFrom 1 t.lines

/-- A line number that is listed is not below the first one. -/
theorem le_of_mem_replacementsFrom {m : Nat} :
    ∀ {n : Nat} {ls : List Text}, m ∈ replacementsFrom n ls → n ≤ m
  | _, [], h => by simp [replacementsFrom] at h
  | n, l :: ls, h => by
    have ih := fun h => @le_of_mem_replacementsFrom m (n + 1) ls h
    rw [replacementsFrom] at h
    split at h <;> grind

/-- Line numbers ascend. -/
theorem replacementsFrom_pairwise :
    ∀ (n : Nat) (ls : List Text), (replacementsFrom n ls).Pairwise (· < ·)
  | _, [] => .nil
  | n, l :: ls => by
    rw [replacementsFrom]
    split
    · exact .cons (fun _ h => le_of_mem_replacementsFrom h) (replacementsFrom_pairwise (n + 1) ls)
    · exact replacementsFrom_pairwise (n + 1) ls

/-- **Each offending line is listed once, in order.** -/
theorem replacementLines_pairwise (t : Text) : (replacementLines t).Pairwise (· < ·) :=
  replacementsFrom_pairwise 1 t.lines

end SqlSanity.Text
