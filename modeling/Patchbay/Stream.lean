import Patchbay.Value
import Patchbay.Fault

/-!
# Streams of outputs

What a streaming operator yields: for each position an element, a failure, the end or nothing for
ever. An element may take time, counted in milliseconds from the moment it is asked for. Positions
are asked for in order, and none after a failure or the end.
-/

namespace Patchbay

/-- What stands at one position of a stream, `after` a delay. -/
inductive Pull where
  | value (after : Nat) (v : Value)
  | fault (after : Nat) (f : Fault)
  | finished
  | never

/-- The delay of a position; nothing for a position that never comes. -/
def Pull.delay? : Pull → Option Nat
  | value after _ | fault after _ => some after
  | finished => some 0
  | never => none

structure Stream where
  pull : Nat → Pull

namespace Stream

/-- A stream that starts with `pulls` and then stays at `tail`. -/
def ofPulls (pulls : Array Pull) (tail : Pull) : Stream := ⟨fun n => pulls.getD n tail⟩

/-- The items without delay, then the end. -/
def ofList (items : List Value) : Stream :=
  ofPulls (items.map (Pull.value 0)).toArray .finished

/-- The items with a pause before each but the first, then the end. -/
def paced (pause : Nat) : List Value → Stream
  | [] => ofList []
  | first :: rest => ofPulls (.value 0 first :: rest.map (.value pause)).toArray .finished

end Stream

end Patchbay
