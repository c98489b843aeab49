import Patchbay.Client
import Patchbay.Exchange

/-!
# Lines

A line is one client's connection to an exchange, as a channel: while the client waits, the exchange
moves, and its clock goes from one moment at which something happens to the next. A wait that would
end at a moment at which something happens too ends first. Waits go on at most until `limit`, at
which they are given up.
-/

namespace Patchbay

structure Line (σ : Type) where
  exchange : Exchange σ
  client : ClientId
  limit : Option Nat

namespace Line

/-- The clock goes forward to a moment. -/
def setClock (l : Line σ) (t : Nat) : Line σ :=
  { l with exchange := { l.exchange with now := max l.exchange.now t } }

/-- The first of two moments that may not come. -/
def earliest : Option Nat → Option Nat → Option Nat
  | some s, some t => some (min s t)
  | some s, none => some s
  | none, t => t

/-- Nothing arrives until the deadline or the limit. -/
def giveUp (deadline : Option Nat) (l : Line σ) : Arrival × Line σ :=
  match deadline, earliest deadline l.limit with
  | some d, some stop =>
    if d = stop then (.expired, l.setClock d) else (.abandoned, l.setClock stop)
  | none, some stop => (.abandoned, l.setClock stop)
  | _, none => (.abandoned, l)

/-- A packet that is there already, or the end of the connection. -/
def poll? (l : Line σ) : Option (Arrival × Line σ) :=
  match l.exchange.receive l.client with
  | .packet p x => some (.packet p, { l with exchange := x })
  | .failed e x => some (.failed e, { l with exchange := x })
  | .waiting => none

/-- Waits until the deadline. -/
def wait (deadline : Option Nat) : (fuel : Nat) → Line σ → Arrival × Line σ
  | 0, l => (.abandoned, l)
  | fuel + 1, l =>
    let l := { l with exchange := l.exchange.rest }
    match l.poll? with
    | some found => found
    | none =>
      let stop := earliest deadline l.limit
      match l.exchange.due? with
      | some t =>
        if stop.all (t < ·) then wait deadline fuel (l.setClock t) else l.giveUp deadline
      | none => l.giveUp deadline

/-- A wait of no length looks only at what is there. -/
def receive (l : Line σ) (timeout : Option Nat) : Arrival × Line σ :=
  let deadline := timeout.map (l.exchange.now + ·)
  match l.poll? with
  | some found => found
  | none =>
    if (earliest deadline l.limit).any (· ≤ l.exchange.now) then l.giveUp deadline
    else l.wait deadline Exchange.patience

instance : Channel (Line σ) where
  now l := l.exchange.now
  send l p := (l.exchange.send l.client p).map fun x => { l with exchange := x }
  receive := receive
  close l := { l with exchange := l.exchange.close l.client }

end Line

end Patchbay
