/-!
# Queues

First in, first out: `toList` is the queue from its oldest element to its newest.
-/

namespace Patchbay

/-- The oldest elements in order, and the newest in reverse. -/
structure Queue (α : Type) where
  front : List α
  back : List α

namespace Queue

def empty : Queue α := ⟨[], []⟩

def toList (q : Queue α) : List α := q.front ++ q.back.reverse

def isEmpty (q : Queue α) : Bool := q.front.isEmpty && q.back.isEmpty

def length (q : Queue α) : Nat := q.front.length + q.back.length

def push (q : Queue α) (a : α) : Queue α := ⟨q.front, a :: q.back⟩

def pushAll (q : Queue α) (as : List α) : Queue α := as.foldl push q

/-- The oldest element and the others. -/
def pop? (q : Queue α) : Option (α × Queue α) :=
  match q.front with
  | a :: front => some (a, ⟨front, q.back⟩)
  | [] =>
    match q.back.reverse with
    | a :: front => some (a, ⟨front, []⟩)
    | [] => none

end Queue

end Patchbay
