import Patchbay.Server

/-!
# Sessions

A session is a server and some named bare connections to it, acted on step by step. After every
step everything that can happen at that moment has happened, and every connection that is not held
has been read. A report tells what a step came to and what was read during it.

Over a socket a send is followed until its transaction has ended, or its connection.
-/

namespace Patchbay

/-- A named connection: whether reading it is put off, and whether it is over for its client. -/
structure Member where
  id : ClientId
  holding : Bool
  finished : Bool

/-- `received` and `closed` are what was read since the step began. -/
structure Session (σ : Type) where
  server : Server σ
  host : Host
  members : Table String Member
  received : Table String (List Packet)
  closed : List String

namespace Session

inductive Action where
  | «open» (name : String)
  | connect (name : String)
  | send (name : String) (p : Packet)
  | batch (sends : List (String × Packet))
  | close (name : String)
  | peer (name : String)
  | hold (name : String)
  | resume (name : String)
  | advance (ms : Nat)
  | stop
  | drop

/-- What a step comes to by itself. -/
inductive Answer where
  | done
  | gone
  | failed (e : TransportError)
  | peer (url : String)
  | running (b : Bool)
  | several (answers : List Answer)

structure Report where
  answer : Answer
  received : Table String (List Packet)
  closed : List String
  teardown : List String

def start (server : Server σ) (host : Host) : Session σ := ⟨server, host, [], [], []⟩

def exchange (s : Session σ) : Exchange σ := s.server.exchange

def setExchange (s : Session σ) (x : Exchange σ) : Session σ :=
  { s with server := { s.server with exchange := x } }

def overSocket (s : Session σ) : Bool :=
  match s.server.endpoint with
  | .inproc _ => false
  | _ => true

/-! ## Reading -/

/-- Everything that is there for a client, whether the connection has ended, and what remains. -/
def readAll (id : ClientId) : (fuel : Nat) → Exchange σ → List Packet × Bool × Exchange σ
  | 0, x => ([], false, x)
  | fuel + 1, x =>
    match x.receive id with
    | .waiting => ([], false, x)
    | .failed _ x => ([], true, x)
    | .packet p x =>
      let (packets, ended, x) := readAll id fuel x
      (p :: packets, ended, x)

/-- Reads a connection, and notes what was read. -/
def readMember (s : Session σ) (name : String) (m : Member) : Session σ :=
  if m.holding || m.finished then s
  else
    let (packets, ended, x) := readAll m.id Exchange.patience s.exchange
    let s := s.setExchange x
    let s :=
      if packets.isEmpty then s
      else
        let before := (Table.find? s.received name).getD []
        { s with received := Table.put s.received name (before ++ packets) }
    if ended then
      { s with
        members := Table.put s.members name { m with finished := true }
        closed := s.closed ++ [name] }
    else s

/-- How much has been read. -/
def amount (s : Session σ) : Nat :=
  s.received.foldl (fun n entry => n + entry.2.length) s.closed.length

/-- Lets happen what can happen, and reads all connections, as long as there is something to read.
-/
def settle : (fuel : Nat) → Session σ → Session σ
  | 0, s => s
  | fuel + 1, s =>
    let rested := s.setExchange s.exchange.rest
    let read := s.members.foldl (fun s entry => s.readMember entry.1 entry.2) rested
    if read.amount = s.amount then read else settle fuel read

/-- Whether the last reply of a transaction was read, or the connection is over. -/
def ended (s : Session σ) (name tx : String) : Bool :=
  ((Table.find? s.received name).getD []).any (fun p => p.tx == tx && p.isTerminal)
    || (Table.find? s.members name).all Member.finished

/-- Lets time pass until a transaction has ended. -/
def follow (name tx : String) : (fuel : Nat) → Session σ → Session σ
  | 0, s => s
  | fuel + 1, s =>
    let s := s.settle Exchange.patience
    if s.ended name tx then s
    else
      match s.exchange.due? with
      | none => s
      | some t =>
        follow name tx fuel (s.setExchange { s.exchange with now := max s.exchange.now t })

/-! ## Acting -/

/-- Opens a connection under a name; an older one of that name is closed. -/
def open? (s : Session σ) (name : String) : Except TransportError (Session σ) := do
  let (id, server) ← s.server.dial s.host
  let s := { s with server := server }
  let s :=
    match Table.find? s.members name with
    | some m => s.setExchange (s.exchange.close m.id)
    | none => s
  return { s with members := Table.put s.members name ⟨id, false, false⟩ }

/-- Sends a packet and leaves it at that. -/
def post (s : Session σ) (name : String) (p : Packet) : Answer × Session σ :=
  match Table.find? s.members name with
  | none => (.gone, s)
  | some m =>
    if m.finished && s.overSocket then (.gone, s)
    else
      match s.exchange.send m.id p with
      | .ok x => (.done, s.setExchange x)
      | .error e => (.failed e, s)

/-- Sends a packet; over a socket, follows its transaction. -/
def send (s : Session σ) (name : String) (p : Packet) : Answer × Session σ :=
  match s.post name p with
  | (.done, s) => (.done, if s.overSocket then s.follow name p.tx Exchange.patience else s)
  | other => other

/-- Sends packets one after the other, none of which goes further before the last is sent; then they
go on in the order in which they were sent. -/
def batch (s : Session σ) (sends : List (String × Packet)) : Answer × Session σ :=
  let step (state : List Answer × Session σ) (send : String × Packet) :=
    let (answer, s) := state.2.post send.1 send.2
    (state.1 ++ [answer], s)
  let pump (s : Session σ) (send : String × Packet) :=
    match (Table.find? s.members send.1).bind fun m => s.exchange.pump? m.id with
    | some x => s.setExchange x
    | none => s
  let (answers, s) := sends.foldl step ([], s)
  (.several answers, sends.foldl pump s)

def setMember (s : Session σ) (name : String) (f : Member → Member) : Session σ :=
  { s with members := Table.modify s.members name f }

def stop (s : Session σ) : Session σ :=
  let (server, host) := s.server.stop s.host
  { s with server := server, host := host }

/-- Closes a connection, whose client reads nothing more. -/
def close (s : Session σ) (name : String) : Session σ :=
  match Table.find? s.members name with
  | none => s
  | some m =>
    (s.setExchange (s.exchange.close m.id)).setMember name fun m => { m with finished := true }

def act (s : Session σ) : Action → Answer × Session σ
  | .open name =>
    match s.open? name with
    | .ok s => (.done, s)
    | .error e => (.failed e, s)
  | .connect name =>
    match s.open? name with
    | .ok s => s.send name (.connect ("connect-" ++ name))
    | .error e => (.failed e, s)
  | .send name p => s.send name p
  | .batch sends => s.batch sends
  | .close name => (.done, s.close name)
  | .peer _ => (.peer s.server.endpoint.url, s)
  | .hold name => (.done, s.setMember name fun m => { m with holding := true })
  | .resume name => (.done, s.setMember name fun m => { m with holding := false })
  | .advance ms => (.done, s.setExchange (s.exchange.advance ms))
  | .stop =>
    let s := s.stop
    (.running s.server.isRunning, s)
  | .drop => (.done, s.stop)

/-! ## Reports -/

/-- Packets by transaction, those of one transaction by the code of their type; else in their order.
-/
def sorted (packets : List Packet) : List Packet :=
  packets.mergeSort fun p q =>
    p.tx < q.tx || (p.tx == q.tx && p.type.code ≤ q.type.code)

def sortedNames (names : List String) : List String := names.mergeSort fun a b => !(b < a)

/-- Makes a step and reports on it. -/
def step (s : Session σ) (a : Action) : Report × Session σ :=
  let (answer, s) := { s with received := [], closed := [] }.act a
  let s := s.settle Exchange.patience
  let (log, x) := s.exchange.takeLog
  let report : Report :=
    { answer := answer
      received := s.received.map fun entry => (entry.1, sorted entry.2)
      closed := sortedNames s.closed
      teardown := sortedNames log }
  (report, s.setExchange x)

/-- Makes the steps one after the other. -/
def run (s : Session σ) : List Action → List Report
  | [] => []
  | a :: rest =>
    let (report, s) := s.step a
    report :: run s rest

/-- The packets of one transaction in short. -/
structure Digest where
  tx : String
  count : Nat
  gapless : Bool
  done : Nat
  first : Packet
  last : Packet

/-- Whether each number is followed by the next. -/
def consecutive : List UInt32 → Bool
  | a :: b :: rest => b.toNat == a.toNat + 1 && consecutive (b :: rest)
  | _ => true

/-- A digest for each run of packets of the same transaction. -/
def digests (packets : List Packet) : List Digest :=
  (packets.splitBy fun p q => p.tx == q.tx).filterMap fun group =>
    match group with
    | [] => none
    | first :: rest =>
      some
        { tx := first.tx
          count := group.length
          gapless := consecutive (group.filterMap Packet.sequence)
          done := (group.filter Packet.done).length
          first := first
          last := rest.getLast?.getD first }

end Session

end Patchbay
