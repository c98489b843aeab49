import Patchbay.Fault

/-!
# Transport errors

What can go wrong below the packets: with an endpoint, a connection, a channel or a frame.
-/

namespace Patchbay

inductive TransportError where
  | invalidEndpoint (text : String)
  | connectionFailed (text : String)
  | full
  | closed
  | io (text : String)
  | violation (v : Violation)
  deriving DecidableEq, Repr

def TransportError.message : TransportError → String
  | invalidEndpoint text => "Invalid endpoint: " ++ text
  | connectionFailed text => "Connection failed: " ++ text
  | full => "Channel queue full"
  | closed => "Channel closed"
  | io text => "I/O error: " ++ text
  | violation v => "Protocol error: " ++ v.message

/-- One message of an error and its causes. The messages of other software are told by their kind.
-/
inductive Link where
  | text (s : String)
  | json
  | number
  | system
  deriving DecidableEq, Repr

/-- An error and its causes, outermost first. -/
abbrev Chain := List Link

end Patchbay
