import Patchbay.Stream
import Patchbay.Machine.Ticket

/-!
# Driving a stream

A stream becomes replies one element behind: an element is sent when the next one, the end, a
failure or a cancellation is known, so that the last element can be marked done. An empty stream is
one null. A cancellation is noticed before the next element is looked at; what was already found is
acted on first.
-/

namespace Patchbay

/-- What is found at a position of a stream. -/
inductive Element where
  | value (v : Value)
  | fault (f : Fault)
  | finished

/-- A stream under way: the next position, the element not yet sent, since when the machine has been
waiting for the next position, and what it found there, until it acts on it. -/
structure Drive where
  stream : Stream
  position : Nat
  held : Option Value
  since : Nat
  found : Option Element

/-- What driving a stream further leads to. -/
inductive Progress where
  | waiting
  | more (replies : List Reply) (ticket : Ticket) (drive : Drive)
  | ended (replies : List Reply)

namespace Drive

/-- A stream from its start. -/
def start (stream : Stream) (now : Nat) : Drive := ⟨stream, 0, none, now, none⟩

/-- When the next position is there. -/
def due? (d : Drive) : Option Nat := (d.stream.pull d.position).delay?.map (d.since + ·)

/-- What is at the next position, if it is there. -/
def arrived? (d : Drive) (now : Nat) : Option Element :=
  match d.stream.pull d.position with
  | .never => none
  | .finished => some .finished
  | .value after v => if d.since + after ≤ now then some (.value v) else none
  | .fault after f => if d.since + after ≤ now then some (.fault f) else none

/-- Sends the held element, if there is one. -/
def flush (d : Drive) (t : Ticket) : List Reply × Ticket :=
  match d.held with
  | none => ([], t)
  | some v =>
    let (reply, t) := t.partialReply v
    ([reply], t)

/-- The held element and then a failure. -/
def failWith (d : Drive) (t : Ticket) (f : Fault) : Progress :=
  let (replies, t) := d.flush t
  .ended (replies ++ [t.fail f])

/-- Acts on what was found. -/
def act (d : Drive) (t : Ticket) (now : Nat) : Element → Progress
  | .value v =>
    let (replies, t) := d.flush t
    .more replies t ⟨d.stream, d.position + 1, some v, now, none⟩
  | .fault f => d.failWith t f
  | .finished => .ended [t.done (d.held.getD .null)]

/-- Acts on what was found, or else looks for a cancellation and then for the next position. -/
def advance (d : Drive) (t : Ticket) (cancelled : Bool) (now : Nat) : Progress :=
  match d.found with
  | some e => d.act t now e
  | none =>
    if cancelled then d.failWith t .cancelled
    else
      match d.arrived? now with
      | some e => .more [] t { d with found := some e }
      | none => .waiting

end Drive

end Patchbay
