import Patchbay.Text
import Patchbay.TransportError

/-!
# Endpoints

Where a broker is reached: inside the process, over TCP, or at a socket path. An endpoint is written
as a URL; the scheme ends at the first separator, a port begins after the last colon.
-/

namespace Patchbay

inductive Endpoint where
  | inproc (name : String)
  | tcp (address : String)
  | ipc (path : String)
  deriving DecidableEq, Repr

/-- Why a URL is no endpoint. -/
inductive EndpointDefect where
  | missingScheme
  | emptyAddress
  | missingPort
  | emptyHost
  | invalidPort
  | pathTooLong (size : Nat)
  | unsupportedScheme (scheme : String)
  deriving DecidableEq, Repr

namespace Endpoint

/-- A socket path has fewer bytes than this. -/
def pathLimit : Nat := 104

end Endpoint

def EndpointDefect.message : EndpointDefect → String
  | missingScheme => "missing scheme"
  | emptyAddress => "empty address"
  | missingPort => "expected host:port"
  | emptyHost => "empty host"
  | invalidPort => "invalid port"
  | pathTooLong size => s!"socket path too long ({size} bytes, max {Endpoint.pathLimit - 1})"
  | unsupportedScheme scheme => s!"unsupported scheme '{scheme}'"

namespace Endpoint

def scheme : Endpoint → String
  | inproc _ => "inproc"
  | tcp _ => "tcp"
  | ipc _ => "ipc"

def address : Endpoint → String
  | inproc name => name
  | tcp address => address
  | ipc path => path

def separator : String := "://"

/-- The canonical URL. -/
def url (e : Endpoint) : String := e.scheme ++ separator ++ e.address

/-- A host and a port; the address is kept as it is written. -/
def ofAddress (address : List Char) : Except EndpointDefect Endpoint :=
  match Text.splitLast ':' address with
  | none => .error .missingPort
  | some ([], _) => .error .emptyHost
  | some (_, port) =>
    match Text.unsigned? 65535 port with
    | some _ => .ok (tcp (String.ofList address))
    | none => .error .invalidPort

def ofPath (path : String) : Except EndpointDefect Endpoint :=
  if path.utf8ByteSize < pathLimit then .ok (ipc path)
  else .error (.pathTooLong path.utf8ByteSize)

def read (url : List Char) : Except EndpointDefect Endpoint :=
  match Text.splitFirst separator.toList [] url with
  | none => .error .missingScheme
  | some (scheme, address) =>
    if address.isEmpty then .error .emptyAddress
    else match String.ofList scheme with
      | "inproc" => .ok (inproc (String.ofList address))
      | "tcp" => ofAddress address
      | "ipc" | "unix" => ofPath (String.ofList address)
      | other => .error (.unsupportedScheme other)

/-- The endpoint that a URL names. -/
def ofUrl (url : String) : Except TransportError Endpoint :=
  match read url.toList with
  | .ok e => .ok e
  | .error defect => .error (.invalidEndpoint (url ++ ": " ++ defect.message))

end Endpoint

end Patchbay
