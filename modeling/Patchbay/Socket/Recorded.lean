import Patchbay.Client
import Patchbay.Socket

/-!
# Recorded sockets

A socket at whose other end everything was written beforehand, in one piece; the other end then
closes or stays silent. It is a channel on which nothing happens by itself but the end of a wait.
-/

namespace Patchbay

structure Recorded where
  socket : Socket
  now : Nat

namespace Recorded

/-- `silent` tells that the other end stays open. -/
def start (bytes : Bytes) (silent : Bool) : Recorded :=
  let outward := if bytes.isEmpty then Flow.start else Flow.start.write bytes
  ⟨{ Socket.start with outward := if silent then outward else outward.finish }, 0⟩

/-- Reads everything that was written. -/
def readAll : (fuel : Nat) → Socket → Socket
  | 0, s => s
  | fuel + 1, s =>
    match s.forward? with
    | some s => readAll fuel s
    | none => s

def receive (r : Recorded) (timeout : Option Nat) : Arrival × Recorded :=
  let socket := readAll (r.socket.outward.chunks.length + 1) r.socket
  match socket.receive with
  | .packet p s => (.packet p, ⟨s, r.now⟩)
  | .failed e s => (.failed e, ⟨s, r.now⟩)
  | .waiting =>
    match timeout with
    | some ms => (.expired, ⟨socket, r.now + ms⟩)
    | none => (.abandoned, ⟨socket, r.now⟩)

instance : Channel Recorded where
  now := Recorded.now
  send r p := (r.socket.send p).map fun s => { r with socket := s }
  receive := receive
  close r := { r with socket := r.socket.close }

/-- The packets that the client has sent. -/
def sent (r : Recorded) : List Packet :=
  match Frame.Decoder.empty.feed r.socket.inward.chunks.toList.flatten with
  | .ok (packets, _) => packets
  | .error _ => []

end Recorded

end Patchbay
