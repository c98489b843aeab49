import Patchbay.Conduit
import Patchbay.Frame

/-!
# Socket connections

Over a socket packets travel in frames, in both directions. Each side decodes what it reads chunk by
chunk; a chunk that does not decode ends that side's reading, and the packets before the defect in
the same chunk are lost with it. Writing never waits.
-/

namespace Patchbay

/-- One direction of a stream: chunks on their way, and what the reader makes of them. -/
structure Flow where
  chunks : Queue Bytes
  writing : Bool
  reading : Bool
  decoder : Frame.Decoder

namespace Flow

def start : Flow := ⟨.empty, true, true, .empty⟩

def write (f : Flow) (bytes : Bytes) : Flow := { f with chunks := f.chunks.push bytes }

/-- Ends the stream behind what was written. -/
def finish (f : Flow) : Flow := { f with writing := false }

/-- Stops reading; nothing more comes out. -/
def abort (f : Flow) : Flow := { f with reading := false, chunks := .empty }

/-- What the reader's next read brings: packets, or the end of reading and why, if there is a why.
-/
inductive Read where
  | packets (ps : List Packet)
  | ended (reason : Option String)

/-- The next read. A stream may not end inside a frame. -/
def read? (f : Flow) : Option (Read × Flow) :=
  if !f.reading then none
  else
    match f.chunks.pop? with
    | some (bytes, rest) =>
      match f.decoder.feed bytes with
      | .ok (ps, decoder) => some (.packets ps, { f with chunks := rest, decoder := decoder })
      | .error v => some (.ended (some v.message), { f.abort with decoder := .empty })
    | none =>
      if f.writing then none
      else
        let reason := if f.decoder.hasPartial then some "connection closed mid-frame" else none
        some (.ended reason, f.abort)

end Flow

/-- A connection over a socket: the flow to the broker, the flow to the client, and what the client
has read. -/
structure Socket where
  inward : Flow
  outward : Flow
  linked : Bool
  inbox : Queue (Except TransportError Packet)

namespace Socket

def start : Socket := ⟨.start, .start, true, .empty⟩

/-- Sends a packet to the broker, if it fits a frame. -/
def send (s : Socket) (p : Packet) : Except TransportError Socket :=
  if !s.inward.writing then .error .closed
  else
    match Frame.encode p with
    | .ok bytes => .ok { s with inward := s.inward.write bytes }
    | .error v => .error (.violation v)

/-- What the broker's side reads next. -/
def pump? (s : Socket) : Option (List Signal × Socket) :=
  match s.inward.read? with
  | none => none
  | some (.packets ps, inward) => some (ps.map Signal.packet, { s with inward := inward })
  | some (.ended _, inward) => some ([.closed], { s with inward := inward })

/-- Whether the broker can deliver: the packet has to fit a frame. -/
def deliverable (s : Socket) (p : Packet) : Except TransportError Unit :=
  match Frame.encode p with
  | .ok _ => if s.linked then .ok () else .error .closed
  | .error v => .error (.violation v)

def deliver (s : Socket) (p : Packet) : Socket :=
  match Frame.encode p with
  | .ok bytes => { s with outward := s.outward.write bytes }
  | .error _ => s

/-- The broker drops its link: it reads nothing more, and ends the stream behind what it wrote. -/
def drop (s : Socket) : Socket :=
  { s with inward := s.inward.abort, outward := s.outward.finish, linked := false }

/-- What the client's side reads next goes to its inbox. -/
def forward? (s : Socket) : Option Socket :=
  match s.outward.read? with
  | none => none
  | some (.packets ps, outward) =>
    some { s with outward := outward, inbox := s.inbox.pushAll (ps.map .ok) }
  | some (.ended none, outward) => some { s with outward := outward }
  | some (.ended (some reason), outward) =>
    some { s with outward := outward, inbox := s.inbox.push (.error (.io reason)) }

/-- The client's next packet; closed once its side has stopped reading and the inbox is empty. -/
def receive (s : Socket) : Received Socket :=
  match s.inbox.pop? with
  | some (.ok p, rest) => .packet p { s with inbox := rest }
  | some (.error e, rest) => .failed e { s with inbox := rest }
  | none => if s.outward.reading then .waiting else .failed .closed s

/-- The client ends its stream and stops reading. -/
def close (s : Socket) : Socket :=
  { s with inward := s.inward.finish, outward := s.outward.abort }

end Socket

end Patchbay
