import Patchbay.Broker
import Patchbay.Wire

/-!
# The exchange

A running system: broker and machine, the connections to the clients, and the queues between them,
under a clock that stands still while there is something to do. Each part moves by functions of its
own; the exchange only carries what comes out of one part to the next, and fixes one order of moves:
what clients sent comes first, then the broker (replies before events), then the machine (what it
has to clear before the next request), then tasks and instances, and last what goes to the clients.
-/

namespace Patchbay

structure Exchange (σ : Type) where
  now : Nat
  broker : Option Broker
  machine : Machine σ
  events : Queue Event
  requests : Queue Request
  replies : Queue Reply
  wires : Table ClientId Wire
  nextClient : ClientId
  log : List String

namespace Exchange

def start (registry : Registry σ) : Exchange σ where
  now := 0
  broker := some .init
  machine := .init registry
  events := .empty
  requests := .empty
  replies := .empty
  wires := []
  nextClient := 0
  log := []

def isRunning (x : Exchange σ) : Bool := x.broker.isSome

/-! ## Connections -/

/-- Attaches a connection, which the broker hears of. -/
def attach (x : Exchange σ) (w : Wire) : ClientId × Exchange σ :=
  (x.nextClient,
    { x with
      wires := x.wires ++ [(x.nextClient, w)]
      events := x.events.push (.accepted x.nextClient)
      nextClient := x.nextClient + 1 })

def setWire (x : Exchange σ) (c : ClientId) (w : Wire) : Exchange σ :=
  { x with wires := Table.put x.wires c w }

/-- Sends a packet for a client. -/
def send (x : Exchange σ) (c : ClientId) (p : Packet) : Except TransportError (Exchange σ) :=
  match Table.find? x.wires c with
  | none => .error .closed
  | some w => (w.send p).map (x.setWire c)

/-- A client closes its connection. -/
def close (x : Exchange σ) (c : ClientId) : Exchange σ :=
  { x with wires := Table.modify x.wires c Wire.close }

/-- A client's next packet. -/
def receive (x : Exchange σ) (c : ClientId) : Received (Exchange σ) :=
  match Table.find? x.wires c with
  | none => .failed .closed x
  | some w =>
    match w.receive with
    | .packet p w => .packet p (x.setWire c w)
    | .failed e w => .failed e (x.setWire c w)
    | .waiting => .waiting

/-! ## Moves -/

/-- What delivering would come to at this moment. -/
def links (x : Exchange σ) : Links := fun c p =>
  match Table.find? x.wires c with
  | some w => w.deliverable p
  | none => .error .closed

def event (c : ClientId) : Signal → Event
  | .packet p => .packet c p
  | .closed => .closed c

/-- Turns what a client sent into events. -/
def pump? (x : Exchange σ) (c : ClientId) : Option (Exchange σ) := do
  let w ← Table.find? x.wires c
  let (signals, w) ← w.pump?
  some { x.setWire c w with events := x.events.pushAll (signals.map (event c)) }

def effect (x : Exchange σ) : Effect → Exchange σ
  | .deliver c p => { x with wires := Table.modify x.wires c (·.deliver p) }
  | .hangUp c => { x with wires := Table.modify x.wires c Wire.drop }
  | .request r => { x with requests := x.requests.push r }

def apply (x : Exchange σ) (o : Broker.Outcome) : Exchange σ :=
  o.2.foldl effect { x with broker := some o.1 }

/-- The broker takes a reply, or else an event. -/
def brokerStep? (x : Exchange σ) : Option (Exchange σ) := do
  let b ← x.broker
  match x.replies.pop? with
  | some (r, rest) => some ({ x with replies := rest }.apply (b.deliverReply x.links r))
  | none =>
    let (e, rest) ← x.events.pop?
    some ({ x with events := rest }.apply (b.handle x.links (!x.machine.halted) e))

/-- Carries the machine's replies to the broker, if there is one, and its log lines to the log. -/
def collect (x : Exchange σ) (m : Machine σ) : Exchange σ :=
  { x with
    machine := { m with replies := [], log := [] }
    replies := if x.broker.isSome then x.replies.pushAll m.replies else x.replies
    log := x.log ++ m.log }

/-- The machine clears what it has to, or else takes a request. -/
def machineStep? (x : Exchange σ) : Option (Exchange σ) :=
  match x.machine.upkeep? with
  | some m => some (x.collect m)
  | none => do
    let (r, rest) ← x.requests.pop?
    let m ← x.machine.move? (.request r)
    some ({ x with requests := rest }.collect m)

/-- A task, an instance or a waiter moves. -/
def workStep? (x : Exchange σ) : Option (Exchange σ) := (x.machine.work? x.now).map x.collect

def forward? (x : Exchange σ) (c : ClientId) : Option (Exchange σ) := do
  let w ← Table.find? x.wires c
  let w ← w.forward?
  some (x.setWire c w)

/-! ## The order of moves -/

/-- The next move, in the exchange's order. -/
def step? (x : Exchange σ) : Option (Exchange σ) :=
  (x.wires.findSome? fun entry => x.pump? entry.1)
    <|> x.brokerStep?
    <|> x.machineStep?
    <|> x.workStep?
    <|> (x.wires.findSome? fun entry => x.forward? entry.1)

/-- Moves until nothing can move at this moment; `fuel` bounds the moves. -/
def settle (fuel : Nat) (x : Exchange σ) : Exchange σ :=
  match fuel with
  | 0 => x
  | fuel + 1 =>
    match x.step? with
    | none => x
    | some y => settle fuel y

/-- More moves than any run takes between two moments. -/
def patience : Nat := 1000000000

/-- Lets happen what can happen at this moment. -/
def rest (x : Exchange σ) : Exchange σ := x.settle patience

/-- When something happens by itself next. -/
def due? (x : Exchange σ) : Option Nat := x.machine.due?

/-- Lets time pass until `deadline`, one waiting moment after the other; `fuel` bounds them. -/
def passUntil (fuel deadline : Nat) (x : Exchange σ) : Exchange σ :=
  match fuel with
  | 0 => x
  | fuel + 1 =>
    match x.due? with
    | some t =>
      if t ≤ deadline then passUntil fuel deadline { x with now := max x.now t }.rest
      else { x with now := max x.now deadline }
    | none => { x with now := max x.now deadline }

/-- Lets `ms` milliseconds pass. -/
def advance (x : Exchange σ) (ms : Nat) : Exchange σ := x.rest.passUntil patience (x.now + ms)

/-- Stops the broker, whose links drop, and then the machine. -/
def stop (x : Exchange σ) : Exchange σ :=
  if x.isRunning then
    let stopped : Exchange σ :=
      { x with
        broker := none
        wires := x.wires.map fun (c, w) => (c, w.drop)
        events := .empty
        requests := .empty
        replies := .empty
        machine := x.machine.stop }
    stopped.rest
  else x

/-- Takes the log lines written since the last time. -/
def takeLog (x : Exchange σ) : List String × Exchange σ := (x.log, { x with log := [] })

end Exchange

end Patchbay
