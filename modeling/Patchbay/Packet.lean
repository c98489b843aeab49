import Patchbay.Target

/-!
# Packets

What clients, broker and machine say to each other. A packet belongs to a transaction; replies to an
execute are numbered, and the one that ends a transaction is *terminal*.
-/

namespace Patchbay

inductive PacketType where
  | connect
  | disconnect
  | subscribe
  | unsubscribe
  | execute
  | cancel
  | respond
  | respondExecute
  deriving DecidableEq, Repr

namespace PacketType

def code : PacketType → UInt8
  | connect => 0
  | disconnect => 1
  | subscribe => 2
  | unsubscribe => 3
  | execute => 4
  | cancel => 5
  | respond => 16
  | respondExecute => 17

def ofCode : UInt8 → Except Violation PacketType
  | 0 => .ok connect
  | 1 => .ok disconnect
  | 2 => .ok subscribe
  | 3 => .ok unsubscribe
  | 4 => .ok execute
  | 5 => .ok cancel
  | 16 => .ok respond
  | 17 => .ok respondExecute
  | other => .error (.unknownPacketType other)

def name : PacketType → String
  | connect => "connect"
  | disconnect => "disconnect"
  | subscribe => "subscribe"
  | unsubscribe => "unsubscribe"
  | execute => "execute"
  | cancel => "cancel"
  | respond => "respond"
  | respondExecute => "respond_execute"

def all : List PacketType :=
  [connect, disconnect, subscribe, unsubscribe, execute, cancel, respond, respondExecute]

def ofName? (name : String) : Option PacketType := all.find? fun t => t.name == name

/-- Whether packets of this type name an instruction. -/
def carriesInstruction : PacketType → Bool
  | subscribe | unsubscribe | execute => true
  | _ => false

end PacketType

structure Packet where
  tx : String
  type : PacketType
  instruction : Option Instruction
  sequence : Option UInt32
  headers : Fields
  body : Value

/-- A failure as its receiver sees it. -/
structure Remote where
  code : String
  detail : String
  deriving DecidableEq, Repr

namespace Remote

/-- The failure a body reports; a body whose status is not false reports none. -/
def ofBody (body : Value) : Option Remote :=
  if (body.get? "status").bind Value.asBool? = some false then
    some
      { code := ((body.get? "reason").bind Value.asString?).getD "Unknown"
        detail := ((body.get? "detail").bind Value.asString?).getD "" }
  else none

def message (r : Remote) : String :=
  if r.detail.isEmpty then r.code else r.code ++ ": " ++ r.detail

end Remote

/-- The body that reports a fault. -/
def Fault.body (f : Fault) : Value :=
  .map [("status", .bool false), ("reason", .string f.code), ("detail", .string f.message)]

/-- The only version of the protocol there is; a connect may leave it out. -/
def protocolVersion : String := "1"

namespace Packet

def bare (tx : String) (type : PacketType) : Packet :=
  ⟨tx, type, none, none, [], .map []⟩

/-- A packet that names its target. -/
def routed (tx : String) (type : PacketType) (target : Target) : Packet :=
  ⟨tx, type, some target.instruction, none, target.writeHeaders [], .map []⟩

def connect (tx : String) : Packet :=
  { bare tx .connect with headers := [(Header.version, .string protocolVersion)] }

def disconnect (tx : String) : Packet := bare tx .disconnect

def subscribe (tx : String) (target : Target) : Packet := routed tx .subscribe target

def unsubscribe (tx : String) (target : Target) : Packet := routed tx .unsubscribe target

def execute (tx : String) (target : Target) (args : Value) : Packet :=
  { routed tx .execute target with body := .map [("args", args)] }

def callFunction (tx function : String) (args : Value) : Packet :=
  execute tx (.function function) args

def defineComponent (tx type name : String) (args : Value) : Packet :=
  { routed tx .execute (.componentType type) with
    body := .map [("name", .string name), ("args", args)] }

def deleteComponent (tx name : String) : Packet := routed tx .execute (.component name)

def callMethod (tx component method : String) (args : Value) : Packet :=
  execute tx (.method component method) args

def cancel (tx : String) : Packet := bare tx .cancel

def respondOk (tx : String) : Packet :=
  { bare tx .respond with body := .map [("status", .bool true)] }

def respondFault (tx : String) (fault : Fault) : Packet :=
  { bare tx .respond with body := fault.body }

/-- One output of an execute; `done` marks the last. -/
def output (tx : String) (sequence : UInt32) (done : Bool) (value : Value) : Packet :=
  { bare tx .respondExecute with
    sequence := some sequence
    headers := [(Header.done, .bool done)]
    body := .map [("status", .bool true), ("output", value)] }

/-- The failure of an execute, which ends it without being done. -/
def outputFault (tx : String) (sequence : UInt32) (fault : Fault) : Packet :=
  { bare tx .respondExecute with
    sequence := some sequence
    headers := [(Header.done, .bool false)]
    body := fault.body }

/-- An instruction and a sequence number stand where the type calls for them, and nowhere else. -/
def validate (p : Packet) : Except Violation Unit :=
  if p.type.carriesInstruction && p.instruction.isNone then
    .error (.missingInstruction p.type.name)
  else if !p.type.carriesInstruction && p.instruction.isSome then
    .error (.unexpectedInstruction p.type.name)
  else match p.type, p.sequence with
    | .respondExecute, none => .error (.malformed .missingSequence)
    | .respondExecute, some _ | _, none => .ok ()
    | type, some _ => .error (.malformed (.unexpectedSequence type.name))

def target (p : Packet) : Except Violation Target :=
  match p.instruction with
  | some instruction => Target.ofHeaders p.headers instruction
  | none => .error (.missingInstruction p.type.name)

def status (p : Packet) : Bool := ((p.body.get? "status").bind Value.asBool?).getD false

def done (p : Packet) : Bool := ((p.headers.find Header.done).bind Value.asBool?).getD false

def result? (p : Packet) : Option Value := p.body.get? "output"

def failure? (p : Packet) : Option Remote := Remote.ofBody p.body

/-- Whether no packet of the same transaction follows. -/
def isTerminal (p : Packet) : Bool :=
  match p.type with
  | .respond => true
  | .respondExecute => p.done || !p.status
  | _ => false

/-- The arguments of an execute; null when there are none. -/
def args (p : Packet) : Value := (p.body.get? "args").getD .null

/-- Packets agree when their parts do, headers and body as data. -/
def agrees (p q : Packet) : Bool :=
  p.tx == q.tx && p.type == q.type && p.instruction == q.instruction && p.sequence == q.sequence
    && p.headers.agree q.headers && p.body.agrees q.body

end Packet

end Patchbay
