import Patchbay.Packet

/-!
# Tickets

Every execute that the machine takes on gets a ticket: the right to answer it. Answering uses the
ticket up: each reply carries the next sequence number, and the last one leaves no ticket behind.
-/

namespace Patchbay

/-- Clients are numbered in the order in which they connect. -/
abbrev ClientId := Nat

/-- A packet for a client, and for the subscribers of a target. `serial` is the number of the
request that it answers. -/
structure Reply where
  serial : Nat
  origin : ClientId
  target : Option Target
  packet : Packet

structure Ticket where
  serial : Nat
  origin : ClientId
  tx : String
  target : Target
  sequence : UInt32

namespace Ticket

/-- By which a client's cancel finds the call. -/
def key (t : Ticket) : ClientId × String := (t.origin, t.tx)

def reply (t : Ticket) (packet : Packet) : Reply := ⟨t.serial, t.origin, some t.target, packet⟩

/-- An output that is not the last, and the ticket for the next. -/
def partialReply (t : Ticket) (v : Value) : Reply × Ticket :=
  (t.reply (.output t.tx t.sequence false v), { t with sequence := t.sequence + 1 })

/-- The last output. -/
def done (t : Ticket) (v : Value) : Reply := t.reply (.output t.tx t.sequence true v)

/-- A failure. -/
def fail (t : Ticket) (f : Fault) : Reply := t.reply (.outputFault t.tx t.sequence f)

/-- An instant result. -/
def finish (t : Ticket) : Except Fault Value → Reply
  | .ok v => t.done v
  | .error f => t.fail f

end Ticket

end Patchbay
