import Patchbay.Queue

/-!
# Facts about queues

What the operations on a queue do to the list of its elements.
-/

namespace Patchbay.Queue

variable {α : Type} {q rest : Queue α} {a : α}

@[simp] theorem toList_empty : (empty : Queue α).toList = [] := rfl

@[simp] theorem toList_push (q : Queue α) (a : α) : (q.push a).toList = q.toList ++ [a] := by
  simp [push, toList]

@[simp] theorem toList_pushAll (q : Queue α) (as : List α) :
    (q.pushAll as).toList = q.toList ++ as := by
  induction as generalizing q with
  | nil => simp [pushAll]
  | cons a as ih =>
    have first : q.pushAll (a :: as) = (q.push a).pushAll as := rfl
    rw [first, ih, toList_push, List.append_assoc, List.singleton_append]

@[simp] theorem length_toList (q : Queue α) : q.toList.length = q.length := by
  simp [toList, length]

/-- What is popped is the oldest element. -/
theorem toList_of_pop? (popped : q.pop? = some (a, rest)) : q.toList = a :: rest.toList := by
  obtain ⟨front, back⟩ := q
  cases front with
  | cons b front =>
    cases popped
    rfl
  | nil =>
    simp only [pop?] at popped
    split at popped
    · next reversed =>
      cases popped
      simp [toList, reversed]
    · cases popped

theorem pop?_eq_none_iff : q.pop? = none ↔ q.toList = [] := by
  obtain ⟨front, back⟩ := q
  cases front with
  | cons b front => simp [pop?, toList]
  | nil =>
    simp only [pop?, toList, List.nil_append]
    split
    · next reversed => simp [reversed]
    · next reversed => simp [reversed]

end Patchbay.Queue
