import Patchbay.Subscriptions
import Patchbay.TransportError
import Patchbay.Json.Value
import Patchbay.Machine

/-!
# The broker

The broker knows the clients, their subscriptions, and the transactions whose next replies a client
will not get because one of them did not fit a frame. It answers what concerns it alone, passes
executes and cancels on to the machine, and sends every reply to its origin and to the subscribers
of its target. A client that breaks the protocol, or that cannot be reached, is removed with all
that belongs to it.

What a delivery would come to is given as a function, so that links may fail at any point.
-/

namespace Patchbay

/-- What the broker hears from its links. -/
inductive Event where
  | accepted (client : ClientId)
  | packet (client : ClientId) (p : Packet)
  | closed (client : ClientId)

/-- What the broker does. Hanging up on a client drops its link. -/
inductive Effect where
  | deliver (client : ClientId) (p : Packet)
  | hangUp (client : ClientId)
  | request (r : Request)

/-- What delivering a packet to a client comes to. -/
abbrev Links := ClientId → Packet → Except TransportError Unit

/-- `clients` tells of each client whether it is connected; `undeliverable` are the transactions
whose replies a client does not get any more. -/
structure Broker where
  clients : Table ClientId Bool
  subscriptions : Subscriptions
  undeliverable : List (ClientId × String)

namespace Broker

def init : Broker := ⟨[], .empty, []⟩

/-- A new state and what was done on the way. -/
abbrev Outcome := Broker × List Effect

/-- Goes on from where another step ended. -/
def andThen (o : Outcome) (next : Broker → Outcome) : Outcome :=
  let (b, done) := next o.1
  (b, o.2 ++ done)

/-- How many clients are connected. -/
def connected (b : Broker) : Nat := (b.clients.filter Prod.snd).length

/-- Forgets a client and hangs up on it. -/
def removeClient (b : Broker) (c : ClientId) : Outcome :=
  if Table.has b.clients c then
    ({ clients := Table.erase b.clients c
       subscriptions := (b.subscriptions.removeClient c).1
       undeliverable := b.undeliverable.filter fun key => key.1 ≠ c },
      [.hangUp c])
  else (b, [])

/-- The failure that is sent in place of a packet that does not fit a frame. -/
def replacement (p : Packet) (v : Violation) : Packet :=
  match p.type with
  | .respondExecute => .outputFault p.tx (p.sequence.getD 0) (.violation v)
  | _ => .respondFault p.tx (.violation v)

/-- Whether more replies of the transaction are to come after this one. -/
def opensStream (p : Packet) : Bool := p.type == .respondExecute && !p.isTerminal

/-- Sends a packet to a client. After a reply that did not fit, nothing is sent of its transaction
up to and including the terminal packet. -/
def send (links : Links) (b : Broker) (c : ClientId) (p : Packet) : Outcome :=
  let key := (c, p.tx)
  if key ∈ b.undeliverable then
    if p.isTerminal then ({ b with undeliverable := b.undeliverable.filter (· ≠ key) }, [])
    else (b, [])
  else if !Table.has b.clients c then (b, [])
  else
    match links c p with
    | .ok _ => (b, [.deliver c p])
    | .error (.violation v) =>
      let failure := replacement p v
      let b := if opensStream p then { b with undeliverable := key :: b.undeliverable } else b
      match links c failure with
      | .ok _ => (b, [.deliver c failure])
      | .error _ => b.removeClient c
    | .error _ => b.removeClient c

/-- Sends one packet to several clients. -/
def sendAll (links : Links) (p : Packet) : List ClientId → Broker → Outcome
  | [], b => (b, [])
  | c :: rest, b => andThen (b.send links c p) (sendAll links p rest)

/-- Sends a reply to its origin and to the subscribers of its target. -/
def deliverReply (links : Links) (b : Broker) (r : Reply) : Outcome :=
  sendAll links r.packet (b.subscriptions.recipients r.origin r.target) b

/-- Whether a connect asks for the protocol that there is. -/
def checkVersion (p : Packet) : Except Violation Unit :=
  match p.headers.find Header.version with
  | none => .ok ()
  | some (.string version) =>
    if version = protocolVersion then .ok ()
    else .error (.malformed (.unsupportedVersion (Value.string version).toJson))
  | some v => .error (.malformed (.unsupportedVersion v.toJson))

/-- Checks a packet from a client and finds its target: the fields first, then that a connect came
before, then that clients may send it. -/
def check (connected : Bool) (p : Packet) : Except Violation (Option Target) := do
  p.validate
  if p.type = .connect then
    checkVersion p
    return none
  else if !connected then .error .notConnected
  else match p.type with
    | .respond | .respondExecute => .error (.unexpectedPacket p.type.name)
    | .subscribe | .unsubscribe | .execute => return some (← p.target)
    | _ => return none

/-- A violation is answered and costs the connection. -/
def refuse (links : Links) (b : Broker) (c : ClientId) (p : Packet) (v : Violation) : Outcome :=
  andThen (b.send links c (.respondFault p.tx (.violation v))) fun b => b.removeClient c

def answerOk (links : Links) (b : Broker) (c : ClientId) (tx : String) : Outcome :=
  b.send links c (.respondOk tx)

def unsubscribe (links : Links) (b : Broker) (c : ClientId) (tx : String) (t : Target) : Outcome :=
  let (subscriptions, removed) := b.subscriptions.unsubscribe t c
  let b := { b with subscriptions := subscriptions }
  if removed then b.answerOk links c tx
  else b.send links c (.respondFault tx (.notFound "subscription" t.text))

/-- Passes an execute on; without a machine, it fails for all who would get its replies. -/
def execute (links : Links) (machineOpen : Bool) (b : Broker) (c : ClientId) (p : Packet)
    (t : Target) : Outcome :=
  if machineOpen then (b, [.request (.execute c t p)])
  else b.deliverReply links ⟨0, c, some t, .outputFault p.tx 0 .machineGone⟩

def cancel (links : Links) (machineOpen : Bool) (b : Broker) (c : ClientId) (tx : String) :
    Outcome :=
  if machineOpen then (b, [.request (.cancel c tx)])
  else b.send links c (.respondFault tx .machineGone)

/-- Acts on a packet that was checked. -/
def act (links : Links) (machineOpen : Bool) (b : Broker) (c : ClientId) (p : Packet)
    (target : Option Target) : Outcome :=
  match p.type, target with
  | .connect, _ => { b with clients := Table.put b.clients c true }.answerOk links c p.tx
  | .disconnect, _ => andThen (b.answerOk links c p.tx) fun b => b.removeClient c
  | .subscribe, some t =>
    { b with subscriptions := (b.subscriptions.subscribe t c).1 }.answerOk links c p.tx
  | .unsubscribe, some t => b.unsubscribe links c p.tx t
  | .execute, some t => b.execute links machineOpen c p t
  | .cancel, _ => b.cancel links machineOpen c p.tx
  | _, _ => (b, [])

/-- Takes a packet of a client; packets of unknown clients are ignored. -/
def handlePacket (links : Links) (machineOpen : Bool) (b : Broker) (c : ClientId) (p : Packet) :
    Outcome :=
  match Table.find? b.clients c with
  | none => (b, [])
  | some connected =>
    match check connected p with
    | .ok target => b.act links machineOpen c p target
    | .error v => b.refuse links c p v

/-- Takes an event. -/
def handle (links : Links) (machineOpen : Bool) (b : Broker) : Event → Outcome
  | .accepted c => ({ b with clients := Table.put b.clients c false }, [])
  | .packet c p => b.handlePacket links machineOpen c p
  | .closed c => b.removeClient c

end Broker

end Patchbay
