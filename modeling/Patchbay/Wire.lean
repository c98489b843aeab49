import Patchbay.Socket

/-!
# Wires

A wire is a connection of either kind, as the broker and its clients see it.
-/

namespace Patchbay

inductive Wire where
  | conduit (c : Conduit)
  | socket (s : Socket)

namespace Wire

def send (w : Wire) (p : Packet) : Except TransportError Wire :=
  match w with
  | conduit c => (c.send p).map conduit
  | socket s => (s.send p).map socket

def pump? : Wire → Option (List Signal × Wire)
  | conduit c => c.pump?.map fun (signal, c) => ([signal], conduit c)
  | socket s => s.pump?.map fun (signals, s) => (signals, socket s)

def deliverable (w : Wire) (p : Packet) : Except TransportError Unit :=
  match w with
  | conduit c => c.deliverable
  | socket s => s.deliverable p

def deliver (w : Wire) (p : Packet) : Wire :=
  match w with
  | conduit c => conduit (c.deliver p)
  | socket s => socket (s.deliver p)

def drop : Wire → Wire
  | conduit c => conduit c.drop
  | socket s => socket s.drop

def forward? : Wire → Option Wire
  | conduit c => c.forward?.map conduit
  | socket s => s.forward?.map socket

def receive : Wire → Received Wire
  | conduit c =>
    match c.receive with
    | .packet p c => .packet p (conduit c)
    | .failed e c => .failed e (conduit c)
    | .waiting => .waiting
  | socket s =>
    match s.receive with
    | .packet p s => .packet p (socket s)
    | .failed e s => .failed e (socket s)
    | .waiting => .waiting

def close : Wire → Wire
  | conduit c => conduit c.close
  | socket s => socket s.close

end Wire

end Patchbay
