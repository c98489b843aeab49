import Patchbay.Packet.Layout

/-!
# Frames

Over a byte stream every packet travels in a frame: the length of what follows in four bytes, a type
byte, the packet. A `Decoder` is fed the stream in chunks of any size and keeps what is not yet a
complete frame.
-/

namespace Patchbay.Frame

/-- The largest length a frame may announce; it counts the type byte. -/
def limit : Nat := 16 * 1024 * 1024

/-- The type of the frames that hold a packet. -/
def packetType : UInt8 := 0x01

/-- The frame of a packet. -/
def encode (p : Packet) : Except Violation Bytes := do
  let payload ← p.encode
  let length := payload.length + 1
  if length ≤ limit then return Bytes.littleEndian 4 length ++ packetType :: payload
  else .error (.tooLarge "frame" length limit)

/-- The bytes of a stream that are not yet a complete frame. -/
structure Decoder where
  buffer : Bytes

/-- What stands at the start of a stream. -/
inductive Step where
  | incomplete
  | packet (p : Packet) (rest : Bytes)
  | violation (v : Violation)

namespace Decoder

def empty : Decoder := ⟨[]⟩

def hasPartial (d : Decoder) : Bool := !d.buffer.isEmpty

/-- The packet in the body of a frame: its type byte and what follows. -/
def ofBody : Bytes → Except Violation Packet
  | [] => .error (.frame .zeroLength)
  | type :: payload =>
    if type = packetType then Packet.decode payload else .error (.frame (.unknownType type))

/-- Looks at the first frame. Its announced length is checked before the frame is complete. -/
def step (bytes : Bytes) : Step :=
  match Bytes.split? 4 bytes with
  | none => .incomplete
  | some (front, rest) =>
    let length := Bytes.ofLittleEndian front
    if length = 0 then .violation (.frame .zeroLength)
    else if limit < length then .violation (.frame (.tooLarge length limit))
    else match Bytes.split? length rest with
      | none => .incomplete
      | some (body, rest) =>
        match ofBody body with
        | .ok p => .packet p rest
        | .error v => .violation v

/-- All complete frames, after the packets in `found`, which is in reverse. `fuel` bounds their
number: each takes at least five bytes. -/
def run (fuel : Nat) (found : List Packet) (bytes : Bytes) :
    Except Violation (List Packet × Decoder) :=
  match fuel with
  | 0 => .ok (found.reverse, ⟨bytes⟩)
  | fuel + 1 =>
    match step bytes with
    | .incomplete => .ok (found.reverse, ⟨bytes⟩)
    | .packet p rest => run fuel (p :: found) rest
    | .violation v => .error v

/-- Takes a chunk of the stream. A defective frame discards the packets before it in the chunk. -/
def feed (d : Decoder) (chunk : Bytes) : Except Violation (List Packet × Decoder) :=
  let bytes := d.buffer ++ chunk
  run (bytes.length + 1) [] bytes

end Decoder

end Patchbay.Frame
