import Patchbay.Table
import Patchbay.Target
import Patchbay.Machine.Ticket

/-!
# Subscriptions

Which clients are interested in which target, in the order in which they asked. A client stands at a
target at most once, and no target stands in the table without a client.
-/

namespace Patchbay

structure Subscriptions where
  table : Table Target (List ClientId)

namespace Subscriptions

def empty : Subscriptions := ⟨[]⟩

/-- The subscribers of a target. -/
def subscribers (s : Subscriptions) (t : Target) : List ClientId := (Table.find? s.table t).getD []

/-- Adds a client behind the others; whether it was not there yet. -/
def subscribe (s : Subscriptions) (t : Target) (c : ClientId) : Subscriptions × Bool :=
  if c ∈ s.subscribers t then (s, false)
  else (⟨Table.put s.table t (s.subscribers t ++ [c])⟩, true)

/-- Writes the subscribers of a target that has some, or removes the target with the last of them.
-/
def set (s : Subscriptions) (t : Target) (clients : List ClientId) : Subscriptions :=
  if clients.isEmpty then ⟨Table.erase s.table t⟩ else ⟨Table.put s.table t clients⟩

/-- Removes a client from a target; whether it was there. -/
def unsubscribe (s : Subscriptions) (t : Target) (c : ClientId) : Subscriptions × Bool :=
  if c ∈ s.subscribers t then (s.set t ((s.subscribers t).filter (· ≠ c)), true) else (s, false)

/-- Removes a client from every target; how many targets it stood at. -/
def removeClient (s : Subscriptions) (c : ClientId) : Subscriptions × Nat :=
  let without := s.table.map fun entry => (entry.1, entry.2.filter (· ≠ c))
  (⟨without.filter fun entry => !entry.2.isEmpty⟩, (s.table.filter fun entry => c ∈ entry.2).length)

/-- To whom a reply goes: its origin, then the other subscribers of its target. -/
def recipients (s : Subscriptions) (origin : ClientId) (target : Option Target) : List ClientId :=
  match target with
  | none => [origin]
  | some t => origin :: (s.subscribers t).filter (· ≠ origin)

end Subscriptions

end Patchbay
