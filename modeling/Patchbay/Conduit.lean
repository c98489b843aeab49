import Patchbay.Queue
import Patchbay.Packet
import Patchbay.TransportError

/-!
# In-process connections

A conduit joins a client to the broker inside one process. What the client sends waits in a bounded
queue until the *pump* turns it into events; what the broker delivers waits in an unbounded outbox,
from which the *forwarder* takes one packet after the other into the client's bounded queue. So the
broker never waits for a client, and a client that does not read loses nothing.
-/

namespace Patchbay

/-- What comes out of the broker's end of a connection. -/
inductive Signal where
  | packet (p : Packet)
  | closed

/-- What a client gets when it reads. -/
inductive Received (α : Type) where
  | packet (p : Packet) (rest : α)
  | failed (e : TransportError) (rest : α)
  | waiting

/-- `sending` and `reading` tell whether the client's two ends are open, `linked` whether the broker
holds its link, `pumping` and `forwarding` whether the two movers still run. -/
structure Conduit where
  capacity : Nat
  sent : Queue Packet
  sending : Bool
  pumping : Bool
  linked : Bool
  outbox : Queue Packet
  held : Option Packet
  forwarding : Bool
  ready : Queue Packet
  reading : Bool

namespace Conduit

/-- A new connection; the client's queues hold at least one packet. -/
def start (capacity : Nat) : Conduit where
  capacity := max capacity 1
  sent := .empty
  sending := true
  pumping := true
  linked := true
  outbox := .empty
  held := none
  forwarding := true
  ready := .empty
  reading := true

/-- Sends a packet to the broker, unless the connection is closed or the queue is full. -/
def send (c : Conduit) (p : Packet) : Except TransportError Conduit :=
  if !c.sending || !c.pumping then .error .closed
  else if c.capacity ≤ c.sent.length then .error .full
  else .ok { c with sent := c.sent.push p }

/-- The pump's next move: a packet, or that the client has closed. -/
def pump? (c : Conduit) : Option (Signal × Conduit) :=
  if !c.pumping then none
  else
    match c.sent.pop? with
    | some (p, rest) => some (.packet p, { c with sent := rest })
    | none => if c.sending then none else some (.closed, { c with pumping := false })

/-- Whether the broker can deliver. -/
def deliverable (c : Conduit) : Except TransportError Unit :=
  if c.forwarding then .ok () else .error .closed

def deliver (c : Conduit) (p : Packet) : Conduit := { c with outbox := c.outbox.push p }

/-- The broker lets go of its link; what was delivered is still forwarded. -/
def unlink (c : Conduit) : Conduit := { c with linked := false }

/-- The pump is stopped: what it has not turned into an event is lost. -/
def abort (c : Conduit) : Conduit := { c with pumping := false, sent := .empty }

/-- The broker drops its link, which stops the pump. -/
def drop (c : Conduit) : Conduit := c.unlink.abort

/-- The forwarder's next move. It ends when the client does not read any more, or after the last
packet of a dropped link. -/
def forward? (c : Conduit) : Option Conduit :=
  if !c.forwarding then none
  else
    match c.held with
    | some p =>
      if !c.reading then some { c with forwarding := false, held := none, outbox := .empty }
      else if c.ready.length < c.capacity then some { c with held := none, ready := c.ready.push p }
      else none
    | none =>
      match c.outbox.pop? with
      | some (p, rest) => some { c with held := some p, outbox := rest }
      | none => if c.linked then none else some { c with forwarding := false }

/-- The client's next packet; closed once all is read and the forwarder has ended or the client itself
has closed. -/
def receive (c : Conduit) : Received Conduit :=
  match c.ready.pop? with
  | some (p, rest) => .packet p { c with ready := rest }
  | none => if c.forwarding && c.reading then .waiting else .failed .closed c

/-- The client closes both ends. -/
def close (c : Conduit) : Conduit := { c with sending := false, reading := false }

end Conduit

end Patchbay
