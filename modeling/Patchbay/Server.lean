import Patchbay.Config
import Patchbay.Endpoint.Listen
import Patchbay.Exchange

/-!
# Servers

A server is an exchange that was started from a configuration, together with the endpoint at which
it is reached. Starting checks the configuration, then binds the endpoint, then builds the registry.
-/

namespace Patchbay

structure Server (σ : Type) where
  endpoint : Endpoint
  capacity : Nat
  exchange : Exchange σ

/-- Why a server does not start. -/
inductive StartError where
  | config (e : ConfigError)
  | bind (endpoint : Endpoint) (e : TransportError)
  | modules (f : Fault)

def StartError.chain : StartError → Chain
  | config e => e.chain
  | bind endpoint e => [.text ("Failed to bind " ++ endpoint.url), .text e.message]
  | modules f => [.text "VM failed to load modules", .text f.message]

namespace Server

/-- Where a server listens that is to listen at `e`; inside the process there is nothing to bind.
-/
def listen (host : Host) (e : Endpoint) : Except StartError (Endpoint × Host) :=
  match e with
  | .inproc name => .ok (.inproc name, host)
  | e =>
    match e.bind host with
    | .ok bound => .ok bound
    | .error cause => .error (.bind e cause)

/-- Starts a server; its socket then lies among the files, which its modules may read. -/
def start (host : Host) (config : Config) (modules : Host → List (Module σ)) :
    Except StartError (Server σ × Host) := do
  match config.validate with
  | .error e => .error (.config e)
  | .ok _ =>
    match config.listenOn with
    | .error e => .error (.config e)
    | .ok requested => do
      let (endpoint, host) ← listen host requested
      match Registry.ofModules (modules host) with
      | .error f => .error (.modules f)
      | .ok registry => .ok (⟨endpoint, config.mailboxCapacity.toNat, .start registry⟩, host)

def isRunning (r : Server σ) : Bool := r.exchange.isRunning

/-- Stops the exchange and removes the socket; a stopped server stays as it is. -/
def stop (r : Server σ) (host : Host) : Server σ × Host :=
  if r.isRunning then ({ r with exchange := r.exchange.stop }, r.endpoint.unbind host)
  else (r, host)

/-- A new connection of the kind that the endpoint calls for. -/
def wire (r : Server σ) : Wire :=
  match r.endpoint with
  | .inproc _ => .conduit (.start r.capacity)
  | _ => .socket .start

/-- Connects a client, as long as the server runs. -/
def dial (r : Server σ) (host : Host) : Except TransportError (ClientId × Server σ) :=
  if r.isRunning then
    let (id, x) := r.exchange.attach r.wire
    .ok (id, { r with exchange := x })
  else
    match r.endpoint with
    | .inproc name => .error (.connectionFailed ((Endpoint.inproc name).url ++ " is not running"))
    | e => .error (e.refusal host)

end Server

/-- Why a URL cannot be called at which no server of the caller's is. -/
def Endpoint.unreachable (host : Host) : Endpoint → TransportError
  | .inproc name =>
    .connectionFailed
      ((Endpoint.inproc name).url ++ " is only reachable through its runtime's connector")
  | e => e.refusal host

end Patchbay
