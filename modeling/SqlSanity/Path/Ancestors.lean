import SqlSanity.Path.Basic

/-!
# Path/Ancestors — the chain of paths above a path

The parent of a path drops its last name together with the slashes and dots around it, and keeps
the rest byte for byte: the parent of `a//b/./` is `a`.  A relative path ends its chain with the
empty path, an absolute one with `/`.

* `Path.ancestors` — a path, its parent, the parent's parent, and so on;
* `Path.mem_ancestors_self` — a path comes first in its chain.
-/

namespace SqlSanity.Path

/-- Segments in reverse, less those in front that name nothing. -/
def trimVoid (back : List Bytes) : List Bytes := back.dropWhile isVoid

/-- Segments in reverse, each time less one more name, until no name is left. -/
def withoutNames : (back : List Bytes) → List (List Bytes)
  | [] => []
  | s :: back => if isVoid s then withoutNames back else trimVoid back :: withoutNames back

/-- The paths above `p`, nearest first. -/
def properAncestors (p : Path) : List Path :=
  match p.bytes with
  | [] => []
  | b :: bs =>
    if b == slash then
      (withoutNames (segments bs).reverse).map fun back => ⟨slash :: unite back.reverse⟩
    else match segments (b :: bs) with
      | [] => []
      | s :: ss =>
        if s == [dot] then
          (withoutNames ss.reverse).map (fun back => ⟨unite ([dot] :: back.reverse)⟩) ++ [⟨[]⟩]
        else (withoutNames (s :: ss).reverse).map fun back => ⟨unite back.reverse⟩

/-- A path and the paths above it, nearest first. -/
def ancestors (p : Path) : List Path := p :: properAncestors p

/-- A path comes first in its own chain. -/
theorem mem_ancestors_self (p : Path) : p ∈ p.ancestors := List.mem_cons_self

end SqlSanity.Path
