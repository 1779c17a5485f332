import Mathlib.Data.List.Infix
import SqlSanity.FileSystem.Lookup
import SqlSanity.Path.Ancestors
import SqlSanity.Proofs.Path.Join

/-!
# Proofs/Path/Ancestors — above the path of a place are the paths of the places above it

The chain of a path is cut from its bytes, and knows nothing of places.  The path of a place has one
segment for each name, none of them void; so each cut takes off exactly one name, and the chain goes
through the places above, up to the root.

* `Path.withoutNames_map_bytes` — each cut takes off one name;
* `View.ancestors_pathOf` — the chain of the path of a place.
-/

namespace SqlSanity

namespace Path

/-- Nothing is trimmed where the last segment is a name. -/
theorem trimVoid_map_bytes : ∀ back : List FileName,
    trimVoid (back.map FileName.bytes) = back.map FileName.bytes
  | [] => rfl
  | n :: back => List.dropWhile_cons_of_neg (by simp [n.isVoid_bytes])

/-- **Each cut takes off one name**, when all segments are names. -/
theorem withoutNames_map_bytes : ∀ back : List FileName,
    withoutNames (back.map FileName.bytes) = back.tails.tail.map (List.map FileName.bytes)
  | [] => rfl
  | n :: back => by
    rw [List.map_cons, withoutNames, n.isVoid_bytes, if_neg Bool.false_ne_true, trimVoid_map_bytes,
      withoutNames_map_bytes back, List.tails_cons, List.tail_cons, ← List.map_cons]
    congr 1
    cases back <;> rfl

/-- The segments of names with slashes between them are the names. -/
theorem segments_unite_names (n : FileName) (place : List FileName) :
    segments (unite ((n :: place).map FileName.bytes)) = (n :: place).map FileName.bytes := by
  refine segments_unite (List.cons_ne_nil _ _) fun s hs => ?_
  obtain ⟨m, -, rfl⟩ := List.mem_map.1 hs
  exact m.slash_not_mem

end Path

namespace View

/-- The path of a place is its names with slashes between them, after a slash. -/
theorem pathOf_eq : ∀ place : List FileName,
    pathOf place = ⟨Path.slash :: Path.unite (place.map FileName.bytes)⟩
  | [] => rfl
  | [n] => by simp [pathOf, Path.unite]
  | n :: m :: place => by
    have ih := congrArg Path.bytes (pathOf_eq (m :: place))
    exact congrArg (fun bs => Path.mk (Path.slash :: n.bytes ++ bs)) ih

theorem isAbsolute_pathOf (place : List FileName) : (pathOf place).isAbsolute = true := by
  rw [pathOf_eq]
  rfl

/-- **Above the path of a place are the paths of the places above it**, nearest first. -/
theorem ancestors_pathOf (place : List FileName) :
    (pathOf place).ancestors = place.reverse.tails.map fun back => pathOf back.reverse := by
  have hproper : (pathOf place).properAncestors =
      place.reverse.tails.tail.map fun back => pathOf back.reverse := by
    rw [Path.properAncestors, pathOf_eq]
    match place with
    | [] => rfl
    | n :: place =>
      have hpath : ∀ back : List FileName, pathOf back.reverse =
          ⟨Path.slash :: Path.unite (back.map FileName.bytes).reverse⟩ := fun back => by
        rw [pathOf_eq, List.map_reverse]
      simp only [beq_self_eq_true, if_true, Path.segments_unite_names]
      rw [← List.map_reverse, Path.withoutNames_map_bytes, List.map_map]
      exact List.map_congr_left fun back _ => (hpath back).symm
  have htails : place.reverse.tails = place.reverse :: place.reverse.tails.tail := by
    cases place.reverse <;> rfl
  rw [Path.ancestors, hproper, htails, List.map_cons, List.reverse_reverse, List.tail_cons]

/-- A path above the path of a place is the path of a place above it. -/
theorem mem_ancestors_pathOf {place : List FileName} {p : Path} :
    p ∈ (pathOf place).ancestors ↔ ∃ above, above <+: place ∧ p = pathOf above := by
  rw [ancestors_pathOf, List.mem_map]
  constructor
  · rintro ⟨back, hback, rfl⟩
    rw [List.mem_tails, ← List.reverse_prefix, List.reverse_reverse] at hback
    exact ⟨back.reverse, hback, rfl⟩
  · rintro ⟨above, habove, rfl⟩
    refine ⟨above.reverse, ?_, by rw [List.reverse_reverse]⟩
    rw [List.mem_tails]
    exact List.reverse_suffix.2 habove

end View

end SqlSanity
