import Patchbay.Exchange
import Patchbay.Proofs.Broker.Delivery
import Patchbay.Proofs.Machine.Said

/-!
# Turns of an exchange

An exchange fixes one order of moves. Here its parts move in any order: clients attach, send, read
and close when they like, and pumps, broker, machine, tasks, instances, waiters and forwarders take
turns as they can. A run notes what can be seen from outside a part: what a client reads, what the
broker takes and does, what the machine takes and says.
-/

namespace Patchbay

variable {σ : Type}

/-- What is seen of a turn: a client reads a packet, the broker hears an event or passes on a reply
and does something, the machine takes a request or sends a reply. -/
inductive Sight where
  | received (c : ClientId) (p : Packet)
  | heard (b : Broker) (e : Event) (done : List Effect)
  | answered (b : Broker) (r : Reply) (done : List Effect)
  | took (r : Request)
  | emitted (r : Reply)

namespace Sight

/-- What the broker does. -/
def done : Sight → List Effect
  | heard _ _ done | answered _ _ done => done
  | _ => []

def read? (c : ClientId) : Sight → Option Packet
  | received d p => if d = c then some p else none
  | _ => none

def request? : Sight → Option Request
  | took r => some r
  | _ => none

def passed? : Sight → Option Reply
  | answered _ r _ => some r
  | _ => none

def emitted? : Sight → Option Reply
  | emitted r => some r
  | _ => none

end Sight

/-! ## What was seen -/

/-- What a client has read. -/
def readBy (c : ClientId) (sights : List Sight) : List Packet := sights.filterMap (Sight.read? c)

/-- What the broker has delivered to a client. -/
def sentTo (c : ClientId) (sights : List Sight) : List Packet :=
  packetsTo c (sights.flatMap Sight.done)

/-- What the broker has asked of the machine. -/
def asksOf (sights : List Sight) : List Request := requests (sights.flatMap Sight.done)

/-- The requests that the machine has taken. -/
def taken (sights : List Sight) : List Request := sights.filterMap Sight.request?

/-- The replies that the machine has sent. -/
def emissions (sights : List Sight) : List Reply := sights.filterMap Sight.emitted?

/-- The replies that the broker has passed on. -/
def passedOn (sights : List Sight) : List Reply := sights.filterMap Sight.passed?

section

variable (c : ClientId) (ss ts : List Sight) (rs : List Reply)

@[simp] theorem readBy_append : readBy c (ss ++ ts) = readBy c ss ++ readBy c ts :=
  List.filterMap_append

@[simp] theorem sentTo_append : sentTo c (ss ++ ts) = sentTo c ss ++ sentTo c ts := by
  simp [sentTo]

@[simp] theorem asksOf_append : asksOf (ss ++ ts) = asksOf ss ++ asksOf ts := by simp [asksOf]

@[simp] theorem taken_append : taken (ss ++ ts) = taken ss ++ taken ts := List.filterMap_append

@[simp] theorem emissions_append : emissions (ss ++ ts) = emissions ss ++ emissions ts :=
  List.filterMap_append

@[simp] theorem passedOn_append : passedOn (ss ++ ts) = passedOn ss ++ passedOn ts :=
  List.filterMap_append

/-! What is seen when the machine speaks. -/

@[simp] theorem readBy_emitted : readBy c (rs.map .emitted) = [] := by
  simp [readBy, List.filterMap_map, Function.comp_def, Sight.read?]

@[simp] theorem done_emitted : (rs.map Sight.emitted).flatMap Sight.done = [] := by
  simp [List.flatMap_map, Sight.done]

@[simp] theorem taken_emitted : taken (rs.map .emitted) = [] := by
  simp [taken, List.filterMap_map, Function.comp_def, Sight.request?]

@[simp] theorem emissions_emitted : emissions (rs.map .emitted) = rs := by
  simp [emissions, List.filterMap_map, Function.comp_def, Sight.emitted?]

@[simp] theorem passedOn_emitted : passedOn (rs.map .emitted) = [] := by
  simp [passedOn, List.filterMap_map, Function.comp_def, Sight.passed?]

/-! What is seen when a client reads. -/

variable (d : ClientId) (ps : List Packet)

theorem readBy_received : readBy c (ps.map (.received d)) = if d = c then ps else [] := by
  split
  · next same => simp [readBy, List.filterMap_map, Function.comp_def, Sight.read?, same]
  · next other => simp [readBy, List.filterMap_map, Function.comp_def, Sight.read?, other]

@[simp] theorem done_received : (ps.map (Sight.received d)).flatMap Sight.done = [] := by
  simp [List.flatMap_map, Sight.done]

@[simp] theorem taken_received : taken (ps.map (.received d)) = [] := by
  simp [taken, List.filterMap_map, Function.comp_def, Sight.request?]

@[simp] theorem emissions_received : emissions (ps.map (.received d)) = [] := by
  simp [emissions, List.filterMap_map, Function.comp_def, Sight.emitted?]

@[simp] theorem passedOn_received : passedOn (ps.map (.received d)) = [] := by
  simp [passedOn, List.filterMap_map, Function.comp_def, Sight.passed?]

end

namespace Exchange

/-- Whose turn it is. The functions and component types may behave differently at each use: the
registry is exchanged for that. -/
inductive Turn (σ : Type) where
  | attach (capacity : Nat)
  | send (c : ClientId) (p : Packet)
  | close (c : ClientId)
  | receive (c : ClientId)
  | pump (c : ClientId)
  | hear
  | answer
  | take
  | work (l : Machine.Move)
  | forward (c : ClientId)
  | wait (now : Nat)
  | exchange (registry : Registry σ)

/-- The broker takes an event. -/
def hear? (x : Exchange σ) : Option (List Sight × Exchange σ) := do
  let b ← x.broker
  let (e, rest) ← x.events.pop?
  let o := b.handle x.links (!x.machine.halted) e
  some ([.heard b e o.2], { x with events := rest }.apply o)

/-- The broker takes a reply. -/
def answer? (x : Exchange σ) : Option (List Sight × Exchange σ) := do
  let b ← x.broker
  let (r, rest) ← x.replies.pop?
  let o := b.deliverReply x.links r
  some ([.answered b r o.2], { x with replies := rest }.apply o)

/-- The machine takes a request. -/
def take? (x : Exchange σ) : Option (List Sight × Exchange σ) := do
  let (r, rest) ← x.requests.pop?
  let m ← x.machine.move? (.request r)
  some (.took r :: m.replies.map .emitted, { x with requests := rest }.collect m)

/-- Whether the machine makes a move without taking a request; it begins a cancel when that is the next
one. -/
def goesOn (x : Exchange σ) : Machine.Move → Bool
  | .request _ | .stop => false
  | .trip key => x.requests.pop?.any fun next => next.1.cancels key
  | _ => true

/-- The machine moves between two requests. -/
def work? (x : Exchange σ) (l : Machine.Move) : Option (List Sight × Exchange σ) :=
  if x.goesOn l then (x.machine.move? l).map fun m => (m.replies.map .emitted, x.collect m) else none

/-- What is seen of a turn and what it leads to, if it can be taken. -/
def turn? (x : Exchange σ) : Turn σ → Option (List Sight × Exchange σ)
  | .attach capacity => some ([], (x.attach (.conduit (.start capacity))).2)
  | .send c p =>
    match x.send c p with
    | .ok y => some ([], y)
    | .error _ => none
  | .close c => (Table.find? x.wires c).map fun _ => ([], x.close c)
  | .receive c =>
    match x.receive c with
    | .packet p y => some ([.received c p], y)
    | .failed _ _ | .waiting => none
  | .pump c => (x.pump? c).map ([], ·)
  | .hear => x.hear?
  | .answer => x.answer?
  | .take => x.take?
  | .work l => x.work? l
  | .forward c => (x.forward? c).map ([], ·)
  | .wait now => some ([], { x with now := now })
  | .exchange registry => some ([], { x with machine := { x.machine with registry := registry } })

/-- A run of an exchange over connections inside the process, with all that is seen of it. -/
inductive Run : List Sight → Exchange σ → Prop where
  | start (registry : Registry σ) : Run [] (start registry)
  | turn {sights new : List Sight} {x y : Exchange σ} (t : Turn σ) (before : Run sights x)
      (step : x.turn? t = some (new, y)) : Run (sights ++ new) y

/-- Turns one after the other, if they can be taken, with all that is seen of them. -/
def turns? (x : Exchange σ) : List (Turn σ) → Option (List Sight × Exchange σ)
  | [] => some ([], x)
  | t :: rest => do
    let (first, y) ← x.turn? t
    let (later, z) ← y.turns? rest
    some (first ++ later, z)

theorem Run.turns {sights new : List Sight} {x y : Exchange σ} {ts : List (Turn σ)}
    (run : Run sights x) (taken : x.turns? ts = some (new, y)) : Run (sights ++ new) y := by
  induction ts generalizing sights new x with
  | nil =>
    cases taken
    simpa using run
  | cons t rest ih =>
    obtain ⟨⟨first, z⟩, step, taken⟩ := Option.bind_eq_some_iff.1 taken
    obtain ⟨⟨later, w⟩, others, same⟩ := Option.bind_eq_some_iff.1 taken
    cases same
    rw [← List.append_assoc]
    exact ih (run.turn t step) others

/-! ## The exchange's own order -/

variable {x y : Exchange σ}

theorem turn_of_pump {c : ClientId} (pumped : x.pump? c = some y) :
    ∃ t new, x.turn? t = some (new, y) := ⟨.pump c, [], by simp [turn?, pumped]⟩

theorem turn_of_brokerStep (step : x.brokerStep? = some y) : ∃ t new, x.turn? t = some (new, y) := by
  obtain ⟨b, broker, step⟩ := Option.bind_eq_some_iff.1 step
  split at step
  · next r rest popped =>
    cases step
    refine ⟨.answer, [.answered b r (b.deliverReply x.links r).2], ?_⟩
    simp only [turn?, answer?, broker, popped, Option.bind_eq_bind, Option.bind_some]
  · obtain ⟨⟨e, rest⟩, popped, step⟩ := Option.bind_eq_some_iff.1 step
    cases step
    refine ⟨.hear, [.heard b e (b.handle x.links (!x.machine.halted) e).2], ?_⟩
    simp only [turn?, hear?, broker, popped, Option.bind_eq_bind, Option.bind_some]

theorem turn_of_work {l : Machine.Move} {m : Machine σ} (own : x.goesOn l)
    (moved : x.machine.move? l = some m) : ∃ t new, x.turn? t = some (new, x.collect m) := by
  refine ⟨.work l, m.replies.map .emitted, ?_⟩
  simp only [turn?, work?, own, moved, if_true, Option.map_some]

theorem turn_of_machineStep (step : x.machineStep? = some y) :
    ∃ t new, x.turn? t = some (new, y) := by
  unfold machineStep? at step
  split at step
  · next m upkeep =>
    cases step
    unfold Machine.upkeep? at upkeep
    split at upkeep
    · next halted =>
      cases upkeep
      exact turn_of_work rfl halted
    · exact turn_of_work rfl upkeep
  · obtain ⟨⟨r, rest⟩, popped, step⟩ := Option.bind_eq_some_iff.1 step
    obtain ⟨m, moved, step⟩ := Option.bind_eq_some_iff.1 step
    cases step
    refine ⟨.take, .took r :: m.replies.map .emitted, ?_⟩
    simp only [turn?, take?, popped, moved, Option.bind_eq_bind, Option.bind_some]

theorem turn_of_workStep (step : x.workStep? = some y) : ∃ t new, x.turn? t = some (new, y) := by
  obtain ⟨m, worked, rfl⟩ := Option.map_eq_some_iff.1 step
  unfold Machine.work? at worked
  split at worked
  · next task =>
    cases worked
    obtain ⟨entry, -, moved⟩ := List.exists_of_findSome?_eq_some task
    exact turn_of_work rfl moved
  · split at worked
    · next actor =>
      cases worked
      obtain ⟨entry, -, moved⟩ := List.exists_of_findSome?_eq_some actor
      exact turn_of_work rfl moved
    · obtain ⟨entry, -, moved⟩ := List.exists_of_findSome?_eq_some worked
      exact turn_of_work rfl moved

/-- The order that an exchange fixes is one of those in which turns are taken. -/
theorem turn_of_step (step : x.step? = some y) : ∃ t new, x.turn? t = some (new, y) := by
  unfold step? at step
  simp only [Option.orElse_eq_orElse, Option.orElse_eq_or, Option.or_eq_some_iff] at step
  rcases step with pumped | ⟨-, brokered | ⟨-, machined | ⟨-, worked | ⟨-, forwarded⟩⟩⟩⟩
  · obtain ⟨entry, -, pumped⟩ := List.exists_of_findSome?_eq_some pumped
    exact turn_of_pump pumped
  · exact turn_of_brokerStep brokered
  · exact turn_of_machineStep machined
  · exact turn_of_workStep worked
  · obtain ⟨entry, -, forwarded⟩ := List.exists_of_findSome?_eq_some forwarded
    exact ⟨.forward entry.1, [], by simp [turn?, forwarded]⟩

/-- Letting happen what can happen goes on with a run. -/
theorem Run.settle {sights : List Sight} (run : Run sights x) (fuel : Nat) :
    ∃ new, Run (sights ++ new) (x.settle fuel) := by
  induction fuel generalizing sights x with
  | zero => exact ⟨[], by simpa [Exchange.settle] using run⟩
  | succ fuel ih =>
    unfold Exchange.settle
    split
    · exact ⟨[], by simpa using run⟩
    · next y step =>
      obtain ⟨t, first, taken⟩ := turn_of_step step
      obtain ⟨later, settled⟩ := ih (run.turn t taken)
      exact ⟨first ++ later, by rwa [← List.append_assoc]⟩

theorem Run.wait {sights : List Sight} (run : Run sights x) (now : Nat) :
    Run sights { x with now := now } := by
  have waited := run.turn (.wait now) rfl
  rwa [List.append_nil] at waited

theorem Run.passUntil {sights : List Sight} (run : Run sights x) (fuel deadline : Nat) :
    ∃ new, Run (sights ++ new) (x.passUntil fuel deadline) := by
  induction fuel generalizing sights x with
  | zero => exact ⟨[], by simpa [Exchange.passUntil] using run⟩
  | succ fuel ih =>
    unfold Exchange.passUntil
    split
    · next t due =>
      split
      · obtain ⟨first, rested⟩ := (run.wait (max x.now t)).settle patience
        obtain ⟨later, passed⟩ := ih rested
        exact ⟨first ++ later, by rwa [← List.append_assoc]⟩
      · exact ⟨[], by simpa using run.wait (max x.now deadline)⟩
    · exact ⟨[], by simpa using run.wait (max x.now deadline)⟩

/-- Letting time pass goes on with a run. -/
theorem Run.advance {sights : List Sight} (run : Run sights x) (ms : Nat) :
    ∃ new, Run (sights ++ new) (x.advance ms) := by
  obtain ⟨first, rested⟩ := run.settle patience
  obtain ⟨later, passed⟩ := rested.passUntil patience (x.now + ms)
  exact ⟨first ++ later, by rwa [← List.append_assoc]⟩

end Exchange

end Patchbay
