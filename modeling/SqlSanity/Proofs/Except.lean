/-!
# Proofs/Except — when a result in steps is there

* `Except.map_eq_ok_iff`, `Except.bind_eq_ok_iff` — what a result was made from.
-/

namespace SqlSanity

namespace Except

variable {α β ε : Type} {r : Except ε α} {b : β} {e : ε}

theorem map_eq_ok_iff {f : α → β} : r.map f = .ok b ↔ ∃ a, r = .ok a ∧ f a = b := by
  cases r <;> simp [Except.map]

theorem map_eq_error_iff {f : α → β} : r.map f = .error e ↔ r = .error e := by
  cases r <;> simp [Except.map]

theorem bind_eq_ok_iff {f : α → Except ε β} : r.bind f = .ok b ↔ ∃ a, r = .ok a ∧ f a = .ok b := by
  cases r <;> simp [Except.bind]

end Except

end SqlSanity
