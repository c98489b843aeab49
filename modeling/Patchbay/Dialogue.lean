import Patchbay.Exchange.Line
import Patchbay.Server

/-!
# Dialogues

A dialogue is a server and some named clients of it, acted on step by step. While a step waits,
time passes as far as the wait needs; a step that would wait longer than an hour is given up. After
every step everything that can happen at that moment has happened.
-/

namespace Patchbay

/-- A client is kept apart from the exchange that it is connected to. -/
structure Dialogue (σ : Type) where
  server : Server σ
  host : Host
  requestTimeout : Nat
  clients : Table String (Client ClientId)
  opened : Nat

namespace Dialogue

inductive Action where
  | connect (name : String) (timeout : Option Nat)
  | advance (ms : Nat)
  | stop
  | drop (name : String)
  | disconnect (name : String)
  | executeTimeout (name : String) (timeout : Option Nat)
  | peer (name : String)
  | subscribe (name : String) (t : Target)
  | unsubscribe (name : String) (t : Target)
  | cancel (name tx : String)
  | call (name : String) (p : Packet)
  | callStream (name : String) (p : Packet) (limit : Option Nat)
  | responses (name tx : String) (limit : Option Nat)
  | send (name : String) (p : Packet)
  | execute (name : String) (packet : String → Packet)
  | listen (name : String) (timeout : Option Nat)
  | drain (name : String) (timeout : Nat)
  | waitFor (name tx : String)

/-- What a step comes to. -/
inductive Answer where
  | done
  | running (b : Bool)
  | peer (url : String)
  | sent (tx : String)
  | issued (tx : String)
  | output (v : Value)
  | outputs (vs : List Value) (ending : Option ClientError)
  | packet (p : Option Packet)
  | packets (ps : List Packet) (ending : Option ClientError)
  | failed (e : ClientError)
  | refused (e : ConnectError)
  | abandoned
  | unknownClient

structure Report where
  answer : Answer
  teardown : List String

/-- The longest that a step may wait, in milliseconds. -/
def patience : Nat := 3600000

def start (server : Server σ) (host : Host) (requestTimeout : Nat) : Dialogue σ :=
  ⟨server, host, requestTimeout, [], 0⟩

def exchange (d : Dialogue σ) : Exchange σ := d.server.exchange

def setExchange (d : Dialogue σ) (x : Exchange σ) : Dialogue σ :=
  { d with server := { d.server with exchange := x } }

/-! ## Answers of operations -/

def ofResult (answer : β → Answer) : Except (Break ClientError) β → Answer
  | .ok b => answer b
  | .error (.error e) => .failed e
  | .error .abandoned => .abandoned

def ofSent (answer : String → Answer) : Except ClientError String → Answer
  | .ok tx => answer tx
  | .error e => .failed e

/-- Outputs up to the error that ends them. -/
def ofOutputs (before : List Value) : List (Except (Break ClientError) Value) → Answer
  | [] => .outputs before.reverse none
  | .ok v :: rest => ofOutputs (v :: before) rest
  | .error (.error e) :: _ => .outputs before.reverse (some e)
  | .error .abandoned :: _ => .abandoned

def ofPackets (ps : List Packet) : Except (Break ClientError) Unit → Answer
  | .ok _ => .packets ps none
  | .error (.error e) => .packets ps (some e)
  | .error .abandoned => .abandoned

/-! ## Acting -/

/-- A client on its line. -/
def attach (d : Dialogue σ) (c : Client ClientId) : Client (Line σ) :=
  { c with channel := ⟨d.exchange, c.channel, some (d.exchange.now + patience)⟩ }

/-- A client apart from its line. -/
def detach (c : Client (Line σ)) : Client ClientId := { c with channel := c.channel.client }

/-- Lets a client act. -/
def use (d : Dialogue σ) (name : String) (f : Client (Line σ) → Answer × Client (Line σ)) :
    Answer × Dialogue σ :=
  match Table.find? d.clients name with
  | none => (.unknownClient, d)
  | some c =>
    let (answer, c) := f (d.attach c)
    (answer,
      { d.setExchange c.channel.exchange with clients := Table.put d.clients name (detach c) })

/-- Forgets a client. -/
def forget (d : Dialogue σ) (name : String) : Dialogue σ :=
  { d with clients := Table.erase d.clients name }

/-- Closes a client's connection without taking leave, and forgets the client. -/
def drop (d : Dialogue σ) (name : String) : Dialogue σ :=
  match Table.find? d.clients name with
  | none => d
  | some c => (d.setExchange (d.exchange.close c.channel)).forget name

/-- Connects a client; an older one of that name is closed once the new one is let in. -/
def connect (d : Dialogue σ) (name : String) (timeout : Option Nat) : Answer × Dialogue σ :=
  match d.server.dial d.host with
  | .error e => (.refused (.transport e), d)
  | .ok (id, server) =>
    let d := { d with server := server, opened := d.opened + 1 }
    let (result, c) :=
      (d.attach (.start id d.opened (timeout.getD d.requestTimeout))).connect Exchange.patience
    let d := d.setExchange c.channel.exchange
    match result with
    | .error (.error e) => (.refused e, d)
    | .error .abandoned => (.abandoned, d)
    | .ok _ =>
      let d :=
        match Table.find? d.clients name with
        | some older => d.setExchange (d.exchange.close older.channel)
        | none => d
      (.done, { d with clients := Table.put d.clients name (detach c) })

def stop (d : Dialogue σ) : Dialogue σ :=
  let (server, host) := d.server.stop d.host
  { d with server := server, host := host }

/-- Sends an execute and reads its outputs. -/
def callStream (p : Packet) (limit : Option Nat) (c : Client (Line σ)) :
    Answer × Client (Line σ) :=
  match c.sendExecute p with
  | (.error e, c) => (.failed e, c)
  | (.ok tx, c) =>
    (c.responses tx Exchange.patience (limit.getD Exchange.patience)).map (ofOutputs []) id

def act (d : Dialogue σ) : Action → Answer × Dialogue σ
  | .connect name timeout => d.connect name timeout
  | .advance ms =>
    (if patience < ms then .abandoned else .done,
      d.setExchange (d.exchange.advance (min ms patience)))
  | .stop =>
    let d := d.stop
    (.running d.server.isRunning, d)
  | .drop name => (.done, d.drop name)
  | .disconnect name =>
    let (answer, d) := d.use name fun c =>
      (c.disconnect Exchange.patience).map (ofResult fun _ => .done) id
    (answer, d.forget name)
  | .executeTimeout name timeout =>
    d.use name fun c => (.done, { c with executeTimeout := timeout })
  | .peer name => d.use name fun c => (.peer d.server.endpoint.url, c)
  | .subscribe name t =>
    d.use name fun c => (c.subscribe Exchange.patience t).map (ofResult fun _ => .done) id
  | .unsubscribe name t =>
    d.use name fun c => (c.unsubscribe Exchange.patience t).map (ofResult fun _ => .done) id
  | .cancel name tx =>
    d.use name fun c => (c.cancel Exchange.patience tx).map (ofResult fun _ => .done) id
  | .call name p => d.use name fun c => (c.call Exchange.patience p).map (ofResult .output) id
  | .callStream name p limit => d.use name (callStream p limit)
  | .responses name tx limit =>
    d.use name fun c =>
      (c.responses tx Exchange.patience (limit.getD Exchange.patience)).map (ofOutputs []) id
  | .send name p => d.use name fun c => (c.sendExecute p).map (ofSent .sent) id
  | .execute name packet => d.use name fun c => (c.execute packet).map (ofSent .issued) id
  | .listen name timeout => d.use name fun c => (c.listen timeout).map (ofResult .packet) id
  | .drain name timeout =>
    d.use name fun c =>
      let (packets, ending, c) := c.drain timeout Exchange.patience
      (ofPackets packets ending, c)
  | .waitFor name tx =>
    d.use name fun c =>
      (c.waitFor Exchange.patience tx).map (ofResult fun p => .packet (some p)) id

/-- Makes a step and reports on it. -/
def step (d : Dialogue σ) (a : Action) : Report × Dialogue σ :=
  let (answer, d) := d.act a
  let (log, x) := d.exchange.rest.takeLog
  (⟨answer, log.mergeSort fun a b => !(b < a)⟩, d.setExchange x)

/-- Makes the steps one after the other. -/
def run (d : Dialogue σ) : List Action → List Report
  | [] => []
  | a :: rest =>
    let (report, d) := d.step a
    report :: run d rest

end Dialogue

end Patchbay
