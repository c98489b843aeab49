import Patchbay.Host
import Patchbay.Endpoint

/-!
# Configuration

The settings of a server, what is wrong with them, and where they come from: a file, then the
environment over it. The file format is in `Config.File`.
-/

namespace Patchbay

inductive Scheduling where
  | multiThread
  | cooperative
  deriving DecidableEq, Repr

namespace Scheduling

def name : Scheduling → String
  | multiThread => "multi_thread"
  | cooperative => "cooperative"

/-- The mode of a name, which may also be written with a dash. -/
def ofName? : String → Option Scheduling
  | "multi_thread" | "multi-thread" => some multiThread
  | "cooperative" => some cooperative
  | _ => none

end Scheduling

/-- Timeouts are in milliseconds. -/
structure Config where
  endpoint : String
  scheduling : Scheduling
  mailboxCapacity : UInt64
  connectTimeout : UInt64
  readyTimeout : UInt64
  stopTimeout : UInt64
  logFilter : String
  deriving DecidableEq, Repr

/-- What is wrong with a configuration or its file. -/
inductive ConfigError where
  | unreadable (path : String)
  | notConfig (path : String)
  | noDirectory
  | unwritable (path : String)
  | unknownScheduling (text : String)
  | invalidCapacity (text : String)
  | invalidEndpoint (text : String) (cause : TransportError)
  | zeroCapacity
  | zeroTimeout
  deriving DecidableEq, Repr

def ConfigError.chain : ConfigError → Chain
  | unreadable path => [.text s!"Failed to read config: {path}", .system]
  | notConfig path => [.text s!"Invalid config: {path}", .json]
  | noDirectory => [.system]
  | unwritable path => [.text s!"Failed to write config: {path}", .system]
  | unknownScheduling text =>
    [.text s!"Unknown scheduling mode: {text} (expected multi_thread or cooperative)"]
  | invalidCapacity text => [.text s!"Invalid SWITCHBOARD_MAILBOX_CAPACITY: {text}", .number]
  | invalidEndpoint text cause => [.text s!"Invalid endpoint: {text}", .text cause.message]
  | zeroCapacity => [.text "mailbox_capacity must be at least 1"]
  | zeroTimeout => [.text "timeouts must be non-zero"]

def Scheduling.ofName (text : String) : Except ConfigError Scheduling :=
  match ofName? text with
  | some mode => .ok mode
  | none => .error (.unknownScheduling text)

namespace Config

def standard : Config where
  endpoint := "inproc://default"
  scheduling := .multiThread
  mailboxCapacity := 128
  connectTimeout := 1000
  readyTimeout := 5000
  stopTimeout := 1000
  logFilter := "info"

/-- The endpoint that the setting names. -/
def listenOn (c : Config) : Except ConfigError Endpoint :=
  match Endpoint.ofUrl c.endpoint with
  | .ok e => .ok e
  | .error cause => .error (.invalidEndpoint c.endpoint cause)

/-- Checks the endpoint, then the capacity, then the timeouts. -/
def validate (c : Config) : Except ConfigError Unit := do
  let _ ← c.listenOn
  if c.mailboxCapacity = 0 then .error .zeroCapacity
  else if c.connectTimeout = 0 ∨ c.readyTimeout = 0 ∨ c.stopTimeout = 0 then .error .zeroTimeout
  else .ok ()

/-- The environment over the settings of a file: endpoint, scheduling, capacity, log filter. -/
def override (c : Config) (env? : String → Option String) : Except ConfigError Config := do
  let c := { c with endpoint := (env? "SWITCHBOARD_ENDPOINT").getD c.endpoint }
  let c ←
    match env? "SWITCHBOARD_SCHEDULING" with
    | none => pure c
    | some text => do
      let mode ← Scheduling.ofName text
      pure { c with scheduling := mode }
  let c ←
    match env? "SWITCHBOARD_MAILBOX_CAPACITY" with
    | none => pure c
    | some text =>
      match Text.unsigned? (0x10000000000000000 - 1) text.toList with
      | some n => pure { c with mailboxCapacity := n.toUInt64 }
      | none => .error (.invalidCapacity text)
  pure { c with logFilter := (env? "SWITCHBOARD_LOG").getD c.logFilter }

end Config

end Patchbay
