import Patchbay.Endpoint
import Patchbay.Host

/-!
# Listening at an endpoint

What happens when a broker is to listen at an endpoint, and when a client calls one at which nobody
listens. A socket path is cleared of the file that is there, and its directories are made; port 0
stands for a port that is free.
-/

namespace Patchbay.Endpoint

/-! ## Addresses

The system is alone: it has its own addresses, knows no names but its own, and no way leads out.
-/

/-- The four numbers of a dotted address. -/
def octets? (host : String) : Option (List Nat) := do
  let parts := host.splitOn "."
  guard (parts.length = 4)
  parts.mapM fun part => (Text.unsigned? 255 part.toList).filter fun n => toString n == part

/-- Where a host is found: here under an address, somewhere else, or nowhere. -/
inductive Whereabouts where
  | here (address : String)
  | elsewhere
  | nowhere
  deriving DecidableEq, Repr

def locate (host : String) : Whereabouts :=
  match host with
  | "localhost" => .here "127.0.0.1"
  | "[::1]" | "::1" => .here "[::1]"
  | "[::]" | "::" => .here "[::]"
  | _ =>
    match octets? host with
    | none => .nowhere
    | some [0, 0, 0, 0] => .here host
    | some (127 :: _) => .here host
    | some _ => .elsewhere

/-- The host and the port of an address. -/
def parts? (address : String) : Option (String × Nat) := do
  let (host, port) ← Text.splitLast ':' address.toList
  let port ← Text.unsigned? 65535 port
  some (String.ofList host, port)

/-- The port that is given out for port 0. -/
def freePort : Nat := 49152

/-- The address at which a listener is found that was to listen at an address. -/
def resolve (address : String) : Except OsError String :=
  match parts? address with
  | none => .error .unknownName
  | some (host, port) =>
    match locate host with
    | .here h => .ok (h ++ ":" ++ toString (if port = 0 then freePort else port))
    | .elsewhere => .error .notAssignable
    | .nowhere => .error .unknownName

/-- Why nobody answers at an address. -/
def silence (address : String) : OsError :=
  match (parts? address).map fun (host, _) => locate host with
  | some (.here _) => .refused
  | some .elsewhere => .noRoute
  | _ => .unknownName

/-- Whether the address has a definite port. -/
def hasPort (address : String) : Bool :=
  match parts? address with
  | some (_, port) => port != 0
  | none => false

/-! ## Listening -/

def notASocket (e : Endpoint) : TransportError :=
  .invalidEndpoint (e.url ++ " is not a socket endpoint")

/-- Clears a path of what lies there. -/
def clearPath (host : Host) (path : String) : Except TransportError Host :=
  if host.exists path then
    (host.remove path).mapError fun e =>
      .connectionFailed s!"remove stale socket {path}: {e.message}"
  else .ok host

/-- Makes a socket at a path. -/
def bindPath (host : Host) (path : String) : Except TransportError Host := do
  let host ← clearPath host path
  let host ← (host.makeParent path).mapError fun e => TransportError.io e.message
  (host.bindSocket path).mapError fun e => .connectionFailed s!"bind {path}: {e.message}"

/-- Listens at a socket endpoint: where in fact, and what the files are then. -/
def bind (host : Host) : Endpoint → Except TransportError (Endpoint × Host)
  | tcp address =>
    match resolve address with
    | .ok found => .ok (tcp found, host)
    | .error e => .error (.connectionFailed s!"bind {(tcp address).url}: {e.message}")
  | ipc path => (bindPath host path).map fun host => (ipc path, host)
  | e => .error (notASocket e)

/-- Stops listening at a socket endpoint. -/
def unbind (host : Host) : Endpoint → Host
  | ipc path => ((host.remove path).toOption).getD host
  | _ => host

/-- Why a socket endpoint at which nobody listens cannot be called. -/
def refusal (host : Host) : Endpoint → TransportError
  | inproc name => notASocket (inproc name)
  | tcp address => .connectionFailed ((tcp address).url ++ ": " ++ (silence address).message)
  | ipc path =>
    let reason :=
      match host.socketAt path with
      | .ok _ => OsError.refused
      | .error e => e
    .connectionFailed ((ipc path).url ++ ": " ++ reason.message)

/-- Whether a call of the first endpoint reaches who listens at the second. -/
def reaches (host : Host) : Endpoint → Endpoint → Bool
  | ipc p, ipc q =>
    match host.socketAt p, host.socketAt q with
    | .ok p, .ok q => p == q
    | _, _ => false
  | e, f => e == f

end Patchbay.Endpoint
