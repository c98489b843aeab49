import Patchbay.Client

/-!
# Taps

A tap on a channel tells which packets were received from it. Nothing that a client does depends on
whether its channel is tapped.
-/

namespace Patchbay

variable {α : Type} [Channel α]

/-- A channel, and the packets that were received from it. -/
structure Tapped (α : Type) where
  inner : α
  received : List Packet

namespace Tapped

/-- The packet that a wait brings. -/
def packet? : Arrival → Option Packet
  | .packet p => some p
  | _ => none

instance : Channel (Tapped α) where
  now t := Channel.now t.inner
  send t p := (Channel.send t.inner p).map fun inner => { t with inner := inner }
  receive t timeout :=
    let (arrival, inner) := Channel.receive t.inner timeout
    (arrival, ⟨inner, t.received ++ (packet? arrival).toList⟩)
  close t := { t with inner := Channel.close t.inner }

theorem receive_eq {t : Tapped α} {timeout : Option Nat} {arrival : Arrival} {inner : α}
    (came : Channel.receive t.inner timeout = (arrival, inner)) :
    Channel.receive t timeout = (arrival, ⟨inner, t.received ++ (packet? arrival).toList⟩) := by
  simp only [Channel.receive, came]

theorem received_of_receive {t t' : Tapped α} {timeout : Option Nat} {arrival : Arrival}
    (came : Channel.receive t timeout = (arrival, t')) :
    t'.received = t.received ++ (packet? arrival).toList := by
  cases came
  rfl

theorem received_of_send {t t' : Tapped α} {p : Packet} (sent : Channel.send t p = .ok t') :
    t'.received = t.received := by
  change (Channel.send t.inner p).map _ = _ at sent
  cases result : Channel.send t.inner p with
  | error e =>
    rw [result] at sent
    cases sent
  | ok inner =>
    rw [result] at sent
    cases sent
    rfl

end Tapped

namespace Client

/-- All packets that were received. -/
def received (c : Client (Tapped α)) : List Packet := c.channel.received

/-- The client without the tap. -/
def plain (c : Client (Tapped α)) : Client α where
  channel := c.channel.inner
  pending := c.pending
  requestTimeout := c.requestTimeout
  executeTimeout := c.executeTimeout
  number := c.number
  issued := c.issued

variable {c : Client (Tapped α)}

theorem receive_plain (w : Want) (a : Allowance) (fuel : Nat) (c : Client (Tapped α)) :
    receive w a fuel c.plain = (receive w a fuel c).map id plain := by
  induction fuel generalizing c with
  | zero => rfl
  | succ fuel ih =>
    rw [receive, receive]
    have time : c.plain.now = c.now := rfl
    rw [time]
    cases a.next? c.now with
    | none => rfl
    | some timeout =>
      rcases came : Channel.receive c.channel.inner timeout with ⟨x, inner⟩
      have tapped := Tapped.receive_eq (t := c.channel) came
      have untapped : Channel.receive c.plain.channel timeout = (x, inner) := came
      simp only [tapped, untapped]
      cases x with
      | packet p =>
        dsimp only
        split
        · rfl
        · exact ih { c with
            channel := ⟨inner, c.channel.received ++ (Tapped.packet? (.packet p)).toList⟩
            pending := c.pending ++ [p] }
      | expired | failed | abandoned => rfl

theorem await_plain (w : Want) (a : Allowance) (fuel : Nat) :
    c.plain.await w a fuel = (c.await w a fuel).map id plain := by
  rw [await, await]
  have kept : c.plain.pending = c.pending := rfl
  rw [kept]
  cases take? w c.pending with
  | some found => rfl
  | none => exact receive_plain w a fuel c

theorem listen_plain (timeout : Option Nat) :
    c.plain.listen timeout = (c.listen timeout).map id plain := by
  rw [listen, listen]
  have kept : c.plain.pending = c.pending := rfl
  rw [kept]
  cases c.pending with
  | cons p rest => rfl
  | nil =>
    rcases came : Channel.receive c.channel.inner timeout with ⟨x, inner⟩
    have tapped := Tapped.receive_eq (t := c.channel) came
    have untapped : Channel.receive c.plain.channel timeout = (x, inner) := came
    simp only [tapped, untapped]
    cases x <;> rfl

theorem waitFor_plain (fuel : Nat) (tx : String) :
    c.plain.waitFor fuel tx = (c.waitFor fuel tx).map id plain := by
  rw [waitFor, waitFor]
  have limit : c.plain.executeTimeout = c.executeTimeout := rfl
  rw [limit, await_plain]
  rcases c.await (.output tx) (.each c.executeTimeout) fuel with ⟨x, d⟩
  cases x <;> rfl

theorem awaitAnswer_plain (fuel : Nat) (tx : String) :
    c.plain.awaitAnswer fuel tx = (c.awaitAnswer fuel tx).map id plain := by
  rw [awaitAnswer, awaitAnswer]
  have deadline : c.plain.now + c.plain.requestTimeout = c.now + c.requestTimeout := rfl
  rw [deadline, await_plain]
  rcases c.await (.answer tx) (.upTo (c.now + c.requestTimeout)) fuel with ⟨x, d⟩
  cases x with
  | packet p =>
    simp only [Prod.map, id]
    cases p.failure? <;> rfl
  | expired | failed | abandoned => rfl

theorem send_plain (p : Packet) : c.plain.send p = (c.send p).map plain := by
  have tapped : Channel.send c.channel p =
      (Channel.send c.channel.inner p).map fun inner => { c.channel with inner := inner } := rfl
  have untapped : Channel.send c.plain.channel p = Channel.send c.channel.inner p := rfl
  rw [send, send, tapped, untapped]
  cases Channel.send c.channel.inner p <;> rfl

theorem request_plain (fuel : Nat) (p : Packet) :
    c.plain.request fuel p = (c.request fuel p).map id plain := by
  rw [request, request, send_plain]
  cases c.send p with
  | error e => rfl
  | ok d => exact awaitAnswer_plain fuel p.tx

theorem connect_plain (fuel : Nat) : c.plain.connect fuel = (c.connect fuel).map id plain := by
  have asked := request_plain (c := c.freshId.2) fuel (.connect c.freshId.1)
  rw [connect, connect]
  have fresh : c.plain.freshId = c.freshId.map id plain := rfl
  simp only [fresh, Prod.map, id, asked]
  rcases c.freshId.2.request fuel (.connect c.freshId.1) with ⟨r, d⟩
  cases r with
  | ok done => rfl
  | error b =>
    cases b with
    | abandoned => rfl
    | error e => cases e <;> rfl

theorem disconnect_plain (fuel : Nat) :
    c.plain.disconnect fuel = (c.disconnect fuel).map id plain := by
  have asked := request_plain (c := c.freshId.2) fuel (.disconnect c.freshId.1)
  rw [disconnect, disconnect]
  have fresh : c.plain.freshId = c.freshId.map id plain := rfl
  simp only [fresh, Prod.map, id, asked]
  rfl

theorem sendExecute_plain (p : Packet) :
    c.plain.sendExecute p = (c.sendExecute p).map id plain := by
  rw [sendExecute, sendExecute, send_plain]
  split
  · cases c.send p <;> rfl
  · rfl

end Client

end Patchbay
