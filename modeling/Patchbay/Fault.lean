import Patchbay.Bytes

/-!
# Faults

Everything that can go wrong between a client, the broker and the machine. A fault is a cause; its
wording is in `message` and its stable code, by which a client tells faults apart, in `code`.
-/

namespace Patchbay

/-- Why bytes are not a value document. `trailing` counts the bytes after a complete document. -/
inductive DocumentDefect where
  | truncated
  | unsupported
  | notText
  | tooDeep
  | trailing (count : Nat)
  | duplicateKey (key : String)
  | integerRange (n : Nat)
  deriving DecidableEq, Repr

namespace DocumentDefect

def message : DocumentDefect → String
  | truncated => "the document ends early"
  | unsupported => "a form that no value has"
  | notText => "a string that is not UTF-8"
  | tooDeep => "containers nested too deep"
  | trailing count => s!"{count} trailing bytes"
  | duplicateKey key => s!"duplicate map key: {key}"
  | integerRange n => s!"integer {n} out of i64 range"

/-- The defects of the byte format itself, as against those of the data in it. -/
def ofFormat : List DocumentDefect := [truncated, unsupported, notText, tooDeep]

end DocumentDefect

/-- Why a packet is malformed. -/
inductive Malformation where
  | truncated (what : String) (offset : Nat)
  | document (what : String) (defect : DocumentDefect)
  | transactionIdNotText
  | headersNotMap (actual : String)
  | trailing (count : Nat)
  | unknownFlags (flags : UInt8)
  | missingSequence
  | unexpectedSequence (packet : String)
  | unsupportedVersion (version : String)
  | note (text : String)
  deriving DecidableEq, Repr

namespace Malformation

def message : Malformation → String
  | truncated what offset => s!"truncated {what} at offset {offset}"
  | document what defect => s!"{what}: Malformed value: " ++ defect.message
  | transactionIdNotText => "transaction id: " ++ DocumentDefect.notText.message
  | headersNotMap actual => s!"headers must be a map, got {actual}"
  | trailing count => s!"{count} trailing bytes after packet"
  | unknownFlags flags => "unknown flags 0x" ++ Bytes.hexByte flags
  | missingSequence => "respond_execute without sequence"
  | unexpectedSequence packet => s!"{packet} cannot carry a sequence"
  | unsupportedVersion version => s!"unsupported protocol version {version}"
  | note text => text

end Malformation

/-- Why bytes are not a frame. -/
inductive FrameDefect where
  | zeroLength
  | tooLarge (length limit : Nat)
  | unknownType (code : UInt8)
  | note (text : String)
  deriving DecidableEq, Repr

namespace FrameDefect

def message : FrameDefect → String
  | zeroLength => "zero length"
  | tooLarge length limit => s!"frame too large: {length} bytes (max {limit})"
  | unknownType code => "unknown frame type: 0x" ++ Bytes.hexByte code
  | note text => text

end FrameDefect

/-- A breach of the packet protocol. Only these are fatal to a connection. -/
inductive Violation where
  | malformed (cause : Malformation)
  | unknownPacketType (code : UInt8)
  | unknownInstruction (code : UInt8)
  | missingInstruction (packet : String)
  | unexpectedInstruction (packet : String)
  | missingHeader (name : String)
  | notConnected
  | unexpectedPacket (packet : String)
  | frame (cause : FrameDefect)
  | tooLarge (what : String) (size limit : Nat)
  deriving DecidableEq, Repr

namespace Violation

def message : Violation → String
  | malformed cause => "Malformed packet: " ++ cause.message
  | unknownPacketType code => s!"Unknown packet type: {code.toNat}"
  | unknownInstruction code => s!"Unknown instruction type: {code.toNat}"
  | missingInstruction packet => s!"Packet type {packet} requires an instruction type"
  | unexpectedInstruction packet => s!"Packet type {packet} cannot carry an instruction type"
  | missingHeader name => s!"Missing or invalid header: {name}"
  | notConnected => "Expected connect before any other packet"
  | unexpectedPacket packet => s!"Clients may not send {packet} packets"
  | frame cause => "Framing error: " ++ cause.message
  | tooLarge what size limit => s!"{what} is {size} bytes (max {limit})"

end Violation

/-- A failure that crosses the boundary between broker and machine. -/
inductive Fault where
  | violation (v : Violation)
  | machineGone
  | unknownTransaction (tx : String)
  | wrongType (op field expected actual : String)
  | outOfRange (op field : String)
  | notFound (kind name : String)
  | alreadyExists (name : String)
  | unknownComponentType (name : String)
  | duplicateName (kind name first second : String)
  | failed (message : String)
  | cancelled
  deriving DecidableEq, Repr

namespace Fault

/-- The stable code a client tells faults apart by. -/
def code : Fault → String
  | violation _ => "ProtocolError"
  | machineGone => "vm unavailable"
  | unknownTransaction _ => "UnknownTarget"
  | wrongType .. => "TypeError"
  | outOfRange .. => "RangeError"
  | notFound .. => "NotFound"
  | alreadyExists _ => "AlreadyExists"
  | unknownComponentType _ => "UnknownComponentType"
  | duplicateName .. => "DuplicateName"
  | failed _ => "OperatorError"
  | cancelled => "Cancelled"

def message : Fault → String
  | violation v => v.message
  | machineGone => "vm unavailable"
  | unknownTransaction tx => s!"No in-flight transaction: {tx}"
  | wrongType op field expected actual =>
    s!"{op}: field '{field}' expected {expected}, got {actual}"
  | outOfRange op field => s!"{op}: field '{field}' missing or out of range"
  | notFound kind name => s!"No such {kind}: {name}"
  | alreadyExists name => s!"Component already exists: {name}"
  | unknownComponentType name => s!"Unknown component type: {name}"
  | duplicateName kind name first second =>
    s!"Duplicate {kind} '{name}' registered by modules '{first}' and '{second}'"
  | failed message => message
  | cancelled => "Transaction cancelled"

end Fault

end Patchbay
