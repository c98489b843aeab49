import Patchbay.Server

/-!
# Bare bytes

What a server makes of bytes that come over a socket in one piece, with the end of the stream
behind them.
-/

namespace Patchbay.Server

/-- A socket on which all bytes are on their way. -/
def rawSocket (bytes : Bytes) : Socket :=
  { Socket.start with inward := (Flow.start.write bytes).finish }

/-- What came back over a wire: the packets, and whether the stream ended inside one. -/
def echoed : Wire → List Packet × Bool
  | .socket s => (s.inbox.toList.filterMap Except.toOption, s.outward.decoder.hasPartial)
  | .conduit _ => ([], false)

/-- Lets the bytes come in, and gives what is sent back until the connection is closed. -/
def hear (r : Server σ) (bytes : Bytes) : (List Packet × Bool) × Server σ :=
  let (id, x) := r.exchange.attach (.socket (rawSocket bytes))
  let x := x.rest
  let answer := ((Table.find? x.wires id).map echoed).getD ([], false)
  (answer, { r with exchange := x })

end Patchbay.Server
