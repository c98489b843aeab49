/-!
# Steps that may fail

What comes of a step and the steps behind it: these see the result of the step if it succeeds, and its
failure is theirs.
-/

namespace Patchbay

variable {α β ε : Type}

@[simp]
theorem ok_bind (a : α) (next : α → Except ε β) : (Except.ok a >>= next) = next a := rfl

@[simp]
theorem error_bind (e : ε) (next : α → Except ε β) : (Except.error e >>= next) = .error e := rfl

theorem bind_eq_ok_iff {x : Except ε α} {next : α → Except ε β} {b : β} :
    (x >>= next) = .ok b ↔ ∃ a, x = .ok a ∧ next a = .ok b := by
  cases x with
  | error e => simp
  | ok a => simp

end Patchbay
