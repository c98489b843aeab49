/-!
# Schedules

What is tried one after the other, without end. Something that is tried again and again comes to an
end that a finite part of the schedule reaches; these are the parts and what is left behind them.
-/

namespace Patchbay

abbrev Schedule (α : Type) := Nat → α

namespace Schedule

variable {α : Type} {p : α → Prop}

def first (s : Schedule α) (n : Nat) : List α := (List.range n).map s

/-- What comes behind the first entries. -/
def behind (s : Schedule α) (n : Nat) : Schedule α := fun i => s (n + i)

/-- Entries of a kind come up again and again. -/
def Recurs (s : Schedule α) (p : α → Prop) : Prop := ∀ n, ∃ m, n ≤ m ∧ p (s m)

theorem first_add (s : Schedule α) (n m : Nat) :
    s.first (n + m) = s.first n ++ (s.behind n).first m := by
  rw [first, first, first, List.range_add, List.map_append, List.map_map]
  rfl

theorem first_succ (s : Schedule α) (n : Nat) : s.first (n + 1) = s.first n ++ [s n] :=
  s.first_add n 1

theorem mem_first {s : Schedule α} {n : Nat} {a : α} :
    a ∈ s.first n ↔ ∃ i, i < n ∧ s i = a := by
  simp [first]

theorem Recurs.behind {s : Schedule α} (recurs : s.Recurs p) (n : Nat) :
    (s.behind n).Recurs p := by
  intro m
  obtain ⟨i, late, reached⟩ := recurs (n + m)
  have back : n + (i - n) = i := by omega
  exact ⟨i - n, by omega, by simpa only [Schedule.behind, back] using reached⟩

end Schedule

end Patchbay
