import Patchbay.Packet
import Patchbay.TransactionId
import Patchbay.TransportError

/-!
# Clients

A client of the broker: it sends requests over a channel and waits for what belongs to them. What
arrives while it waits for something else is kept in `pending`, in the order of arrival, and is
given out first by later reads; nothing that arrives is lost, and no wait that ends without a packet
takes one away.

Waits are bounded by a number of packets, `fuel`; who runs out of it has given the wait up.
-/

namespace Patchbay

inductive ClientError where
  | transport (e : TransportError)
  | remote (r : Remote)
  | timeout (tx : String)
  | notExecute (type : PacketType)

def ClientError.message : ClientError → String
  | transport e => e.message
  | remote r => r.message
  | timeout tx => s!"Timed out waiting for transaction {tx}"
  | notExecute type => s!"Expected an execute packet, got {type.name}"

/-- The code of a failure that came from the other side. -/
def ClientError.remoteCode? : ClientError → Option String
  | remote r => some r.code
  | _ => none

inductive ConnectError where
  | transport (e : TransportError)
  | rejected (r : Remote)
  | timeout

def ConnectError.message : ConnectError → String
  | transport e => "Connect failed: " ++ e.message
  | rejected r => "Connect rejected: " ++ r.message
  | timeout => "Connect timed out waiting for the broker"

/-- How an operation ends without a result: by an error, or because it was given up while it waited.
-/
inductive Break (ε : Type) where
  | error (e : ε)
  | abandoned

/-- What the end of a wait brings. -/
inductive Arrival where
  | packet (p : Packet)
  | expired
  | failed (e : TransportError)
  | abandoned

/-- A connection as its client uses it. `receive` waits as many milliseconds as it is told, or
without limit. -/
class Channel (α : Type) where
  now : α → Nat
  send : α → Packet → Except TransportError α
  receive : α → Option Nat → Arrival × α
  close : α → α

/-- `requestTimeout` bounds every wait for an answer of the broker, `executeTimeout` the wait for
each output. `number` and `issued` make the ids of the client's own transactions. -/
structure Client (α : Type) where
  channel : α
  pending : List Packet
  requestTimeout : Nat
  executeTimeout : Option Nat
  number : Nat
  issued : Nat

namespace Client

/-- What a client may be waiting for, apart from whatever comes next. -/
inductive Want where
  | output (tx : String)
  | answer (tx : String)

def Want.accepts : Want → Packet → Bool
  | output tx, p => p.type == .respondExecute && p.tx == tx
  | answer tx, p => p.type == .respond && p.tx == tx

/-- Takes the earliest packet that is wanted. -/
def take? (w : Want) : List Packet → Option (Packet × List Packet)
  | [] => none
  | p :: rest =>
    if w.accepts p then some (p, rest)
    else (take? w rest).map fun (found, others) => (found, p :: others)

/-- How long a wait may go on: a time for each packet, or until a moment. -/
inductive Allowance where
  | each (timeout : Option Nat)
  | upTo (deadline : Nat)

/-- How long to wait for the next packet, if any time is left. -/
def Allowance.next? (now : Nat) : Allowance → Option (Option Nat)
  | each timeout => some timeout
  | upTo deadline => if now < deadline then some (some (deadline - now)) else none

variable {α : Type} [Channel α]

def now (c : Client α) : Nat := Channel.now c.channel

/-- A client before its first packet. -/
def start (channel : α) (number requestTimeout : Nat) : Client α :=
  ⟨channel, [], requestTimeout, none, number, 0⟩

/-- A new transaction id. -/
def freshId (c : Client α) : String × Client α :=
  (TransactionId.make c.number c.issued, { c with issued := c.issued + 1 })

def send (c : Client α) (p : Packet) : Except TransportError (Client α) :=
  (Channel.send c.channel p).map fun channel => { c with channel := channel }

def close (c : Client α) : Client α := { c with channel := Channel.close c.channel }

/-! ## Reading -/

/-- Reads from the channel until what is wanted arrives, and keeps the rest. -/
def receive (w : Want) (a : Allowance) : (fuel : Nat) → Client α → Arrival × Client α
  | 0, c => (.abandoned, c)
  | fuel + 1, c =>
    match a.next? c.now with
    | none => (.expired, c)
    | some timeout =>
      let (arrival, channel) := Channel.receive c.channel timeout
      let c := { c with channel := channel }
      match arrival with
      | .packet p =>
        if w.accepts p then (.packet p, c)
        else receive w a fuel { c with pending := c.pending ++ [p] }
      | other => (other, c)

/-- The earliest wanted packet, from those kept or from the channel. -/
def await (w : Want) (a : Allowance) (fuel : Nat) (c : Client α) : Arrival × Client α :=
  match take? w c.pending with
  | some (p, others) => (.packet p, { c with pending := others })
  | none => receive w a fuel c

/-- The earliest packet not yet read; none if the time is over before one arrives. -/
def listen (timeout : Option Nat) (c : Client α) :
    Except (Break ClientError) (Option Packet) × Client α :=
  match c.pending with
  | p :: rest => (.ok (some p), { c with pending := rest })
  | [] =>
    let (arrival, channel) := Channel.receive c.channel timeout
    let c := { c with channel := channel }
    match arrival with
    | .packet p => (.ok (some p), c)
    | .expired => (.ok none, c)
    | .failed e => (.error (.error (.transport e)), c)
    | .abandoned => (.error .abandoned, c)

/-- The next output of a transaction. -/
def waitFor (fuel : Nat) (tx : String) (c : Client α) :
    Except (Break ClientError) Packet × Client α :=
  let (arrival, c) := c.await (.output tx) (.each c.executeTimeout) fuel
  match arrival with
  | .packet p => (.ok p, c)
  | .expired => (.error (.error (.timeout tx)), c)
  | .failed e => (.error (.error (.transport e)), c)
  | .abandoned => (.error .abandoned, c)

/-- What the broker answers to a transaction. -/
def awaitAnswer (fuel : Nat) (tx : String) (c : Client α) :
    Except (Break ClientError) Unit × Client α :=
  let (arrival, c) := c.await (.answer tx) (.upTo (c.now + c.requestTimeout)) fuel
  match arrival with
  | .packet p =>
    match p.failure? with
    | some r => (.error (.error (.remote r)), c)
    | none => (.ok (), c)
  | .expired => (.error (.error (.timeout tx)), c)
  | .failed e => (.error (.error (.transport e)), c)
  | .abandoned => (.error .abandoned, c)

/-! ## Requests to the broker -/

/-- Sends a packet and waits for the broker's answer to its transaction. -/
def request (fuel : Nat) (p : Packet) (c : Client α) :
    Except (Break ClientError) Unit × Client α :=
  match c.send p with
  | .error e => (.error (.error (.transport e)), c)
  | .ok c => c.awaitAnswer fuel p.tx

/-- Greets the broker. A client that was not let in has closed its channel. -/
def connect (fuel : Nat) (c : Client α) : Except (Break ConnectError) Unit × Client α :=
  let (tx, c) := c.freshId
  match c.request fuel (.connect tx) with
  | (.ok _, c) => (.ok (), c)
  | (.error b, c) =>
    let problem :=
      match b with
      | .error (.transport e) => .error (.transport e)
      | .error (.remote r) => .error (.rejected r)
      | .error (.timeout _) => .error .timeout
      | .error (.notExecute type) =>
        .error (.transport (.connectionFailed (ClientError.notExecute type).message))
      | .abandoned => .abandoned
    (.error problem, c.close)

/-- Asks for every output of a target, whoever executes it. -/
def subscribe (fuel : Nat) (t : Target) (c : Client α) :
    Except (Break ClientError) Unit × Client α :=
  let (tx, c) := c.freshId
  c.request fuel (.subscribe tx t)

def unsubscribe (fuel : Nat) (t : Target) (c : Client α) :
    Except (Break ClientError) Unit × Client α :=
  let (tx, c) := c.freshId
  c.request fuel (.unsubscribe tx t)

/-- Asks the machine to stop a transaction of this client. -/
def cancel (fuel : Nat) (tx : String) (c : Client α) :
    Except (Break ClientError) Unit × Client α :=
  c.request fuel (.cancel tx)

/-- Takes leave; the channel is closed in any case. -/
def disconnect (fuel : Nat) (c : Client α) : Except (Break ClientError) Unit × Client α :=
  let (tx, c) := c.freshId
  let (result, c) := c.request fuel (.disconnect tx)
  (result, c.close)

/-! ## Executes -/

/-- Sends an execute and gives its transaction id. -/
def sendExecute (p : Packet) (c : Client α) : Except ClientError String × Client α :=
  if p.type = .execute then
    match c.send p with
    | .ok c => (.ok p.tx, c)
    | .error e => (.error (.transport e), c)
  else (.error (.notExecute p.type), c)

/-- Sends an execute under a new transaction id. -/
def execute (packet : String → Packet) (c : Client α) : Except ClientError String × Client α :=
  let (tx, c) := c.freshId
  c.sendExecute (packet tx)

/-- The last output of a transaction; those before it are passed over. -/
def result (tx : String) : (fuel : Nat) → Client α → Except (Break ClientError) Value × Client α
  | 0, c => (.error .abandoned, c)
  | fuel + 1, c =>
    match c.waitFor fuel tx with
    | (.error b, c) => (.error b, c)
    | (.ok p, c) =>
      match p.failure? with
      | some r => (.error (.error (.remote r)), c)
      | none => if p.done then (.ok (p.result?.getD .null), c) else result tx fuel c

/-- Sends an execute and waits for its last output. -/
def call (fuel : Nat) (p : Packet) (c : Client α) : Except (Break ClientError) Value × Client α :=
  match c.sendExecute p with
  | (.error e, c) => (.error (.error e), c)
  | (.ok tx, c) => c.result tx fuel

/-- The outputs of a transaction one by one, at most `limit` of them; a failure is the last. -/
def responses (tx : String) :
    (fuel limit : Nat) → Client α → List (Except (Break ClientError) Value) × Client α
  | 0, _, c => ([.error .abandoned], c)
  | _, 0, c => ([], c)
  | fuel + 1, limit + 1, c =>
    match c.waitFor fuel tx with
    | (.error b, c) => ([.error b], c)
    | (.ok p, c) =>
      match p.failure? with
      | some r => ([.error (.error (.remote r))], c)
      | none =>
        let output := .ok (p.result?.getD .null)
        if p.done then ([output], c)
        else
          let (outputs, c) := responses tx fuel limit c
          (output :: outputs, c)

/-- All packets of a transaction up to the terminal one, and whether that one reports success. -/
def follow (tx : String) :
    (fuel : Nat) → Client α → List Packet × Except (Break ClientError) Bool × Client α
  | 0, c => ([], .error .abandoned, c)
  | fuel + 1, c =>
    match c.waitFor fuel tx with
    | (.error b, c) => ([], .error b, c)
    | (.ok p, c) =>
      if p.isTerminal then ([p], .ok p.status, c)
      else
        let (packets, ending, c) := follow tx fuel c
        (p :: packets, ending, c)

/-- Everything that arrives until nothing does for `timeout` milliseconds, or an error ends it. -/
def drain (timeout : Nat) : (fuel : Nat) → Client α →
    List Packet × Except (Break ClientError) Unit × Client α
  | 0, c => ([], .error .abandoned, c)
  | fuel + 1, c =>
    match c.listen (some timeout) with
    | (.ok none, c) => ([], .ok (), c)
    | (.error b, c) => ([], .error b, c)
    | (.ok (some p), c) =>
      let (packets, ending, c) := drain timeout fuel c
      (p :: packets, ending, c)

end Client

end Patchbay
