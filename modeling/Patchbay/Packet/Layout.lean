import Patchbay.Packet
import Patchbay.MessagePack.Encode
import Patchbay.MessagePack.Decode

/-!
# The byte layout of packets

Type, instruction, flags, an optional sequence number, the transaction id, headers and body, each of
the last three after its length. Numbers are little-endian; headers and body are MessagePack
documents. Reading goes from left to right, stops at the first defect, and leaves nothing over.
-/

namespace Patchbay.Packet

/-- Stands for an absent instruction. -/
def noInstruction : UInt8 := 0xFF

/-- The only flag: a sequence number follows. -/
def sequenceFlag : UInt8 := 0x01

/-- A section after its length, if the length fits `width` bytes. -/
def section? (width : Nat) (what : String) (bytes : Bytes) : Except Violation (Nat × Bytes) :=
  let limit := Nat.pow 256 width - 1
  if bytes.length ≤ limit then .ok (bytes.length, bytes)
  else .error (.tooLarge what bytes.length limit)

/-- The layout of a packet; only a section that is too long for its length field has none. -/
def encode (p : Packet) : Except Violation Bytes := do
  let (idLength, id) ← section? 2 "transaction id" (Bytes.ofText p.tx)
  let (headersLength, headers) ← section? 4 "headers" (MessagePack.encode (.map p.headers))
  let (bodyLength, body) ← section? 4 "body" (MessagePack.encode p.body)
  let flags :=
    match p.sequence with
    | some sequence => sequenceFlag :: Bytes.littleEndian 4 sequence.toNat
    | none => [0]
  return p.type.code :: (p.instruction.map Instruction.code).getD noInstruction :: flags
    ++ Bytes.littleEndian 2 idLength ++ id
    ++ Bytes.littleEndian 4 headersLength ++ headers
    ++ Bytes.littleEndian 4 bodyLength ++ body

/-- A place in a byte string: how many bytes were read, and the rest. -/
structure Cursor where
  offset : Nat
  rest : Bytes

namespace Cursor

/-- The next `n` bytes. -/
def take (c : Cursor) (what : String) (n : Nat) : Except Violation (Bytes × Cursor) :=
  match Bytes.split? n c.rest with
  | some (front, rest) => .ok (front, ⟨c.offset + n, rest⟩)
  | none => .error (.malformed (.truncated what c.offset))

/-- The next number of `width` bytes. -/
def number (c : Cursor) (what : String) (width : Nat) : Except Violation (Nat × Cursor) := do
  let (front, c) ← c.take what width
  return (Bytes.ofLittleEndian front, c)

/-- A document after its length. -/
def document (c : Cursor) (what : String) : Except Violation (Value × Cursor) := do
  let (length, c) ← c.number what 4
  let (bytes, c) ← c.take what length
  match MessagePack.decode bytes with
  | .ok v => return (v, c)
  | .error defect => .error (.malformed (.document what defect))

/-- An instruction, or the byte that stands for none. -/
def instruction (c : Cursor) : Except Violation (Option Instruction × Cursor) := do
  let (code, c) ← c.number "instruction type" 1
  if code.toUInt8 = noInstruction then return (none, c)
  return (some (← Instruction.ofCode code.toUInt8), c)

/-- The flags and the sequence number they announce. -/
def sequence (c : Cursor) : Except Violation (Option UInt32 × Cursor) := do
  let (flags, c) ← c.number "flags" 1
  if flags.toUInt8 = 0 then return (none, c)
  if flags.toUInt8 ≠ sequenceFlag then .error (.malformed (.unknownFlags flags.toUInt8))
  else
    let (n, c) ← c.number "sequence" 4
    return (some n.toUInt32, c)

def transactionId (c : Cursor) : Except Violation (String × Cursor) := do
  let (length, c) ← c.number "transaction id length" 2
  let (bytes, c) ← c.take "transaction id" length
  match Bytes.text? bytes with
  | some tx => return (tx, c)
  | none => .error (.malformed .transactionIdNotText)

def headers (c : Cursor) : Except Violation (Fields × Cursor) := do
  match ← c.document "headers" with
  | (.map fields, c) => return (fields, c)
  | (v, _) => .error (.malformed (.headersNotMap v.typeName))

end Cursor

/-- The packet of which `bytes` is the layout. -/
def decode (bytes : Bytes) : Except Violation Packet := do
  let c : Cursor := ⟨0, bytes⟩
  let (code, c) ← c.number "packet type" 1
  let type ← PacketType.ofCode code.toUInt8
  let (instruction, c) ← c.instruction
  let (sequence, c) ← c.sequence
  let (tx, c) ← c.transactionId
  let (headers, c) ← c.headers
  let (body, c) ← c.document "body"
  if !c.rest.isEmpty then .error (.malformed (.trailing c.rest.length))
  else
    let p : Packet := ⟨tx, type, instruction, sequence, headers, body⟩
    p.validate
    return p

end Patchbay.Packet
