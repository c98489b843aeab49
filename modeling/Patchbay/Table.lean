/-!
# Tables

Association lists in which a key is written at most once: writing under a key that exists keeps its
place, writing under a new key appends.
-/

namespace Patchbay

abbrev Table (κ α : Type) := List (κ × α)

namespace Table

variable {κ α : Type} [DecidableEq κ]

def find? (t : Table κ α) (k : κ) : Option α :=
  match t with
  | [] => none
  | (key, a) :: rest => if key = k then some a else find? rest k

def has (t : Table κ α) (k : κ) : Bool := (find? t k).isSome

/-- Writes `a` under `k`. -/
def put (t : Table κ α) (k : κ) (a : α) : Table κ α :=
  match t with
  | [] => [(k, a)]
  | (key, b) :: rest => if key = k then (key, a) :: rest else (key, b) :: put rest k a

/-- Changes what stands under `k`, if anything does. -/
def modify (t : Table κ α) (k : κ) (f : α → α) : Table κ α :=
  t.map fun entry => if entry.1 = k then (entry.1, f entry.2) else entry

/-- Removes `k`. -/
def erase (t : Table κ α) (k : κ) : Table κ α := t.filter fun entry => entry.1 ≠ k

def keys (t : Table κ α) : List κ := t.map Prod.fst

end Table

end Patchbay
