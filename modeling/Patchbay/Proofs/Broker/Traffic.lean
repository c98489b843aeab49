import Patchbay.Proofs.Broker.Handling

/-!
# Traffic

A broker between clients on sockets and a machine: events and replies come in any order. To each
execute the machine replies until the reply that ends it, each cancel it answers once. For a
transaction of one execute and its cancels, the packets that are offered to its client are such a
stream with answers in between, and what is delivered is what passes of them.
-/

namespace Patchbay

namespace Request

def origin : Request → ClientId
  | .execute d _ _ => d
  | .cancel d _ => d

/-- Whose subscribers get the replies. -/
def target? : Request → Option Target
  | .execute _ t _ => some t
  | .cancel .. => none

/-- A reply to a request that is not the last; a cancel has none. -/
def Continues : Request → Packet → Prop
  | .execute _ _ p, q => q.type = .respondExecute ∧ q.tx = p.tx ∧ q.isTerminal = false
  | .cancel .., _ => False

/-- The last reply to a request. -/
def Settles : Request → Packet → Prop
  | .execute _ _ p, q => q.type = .respondExecute ∧ q.tx = p.tx ∧ q.isTerminal = true
  | .cancel _ tx, q => q.type = .respond ∧ q.tx = tx

end Request

/-- A broker with what it went through: what the machine has still to answer, the events, the
replies with those they were offered to, and what the broker did. -/
structure Traffic where
  broker : Broker
  pending : List Request
  heard : List Event
  offers : List (ClientId × Reply)
  effects : List Effect

namespace Traffic

open Broker (Replies EndsOnce endings answers passAll offeredTo endsOnce_append_one endings_append
  answers_append passAll_append offeredTo_append)

def start : Traffic := ⟨.init, [], [], [], []⟩

/-- What delivering comes to over the clients' sockets. -/
def links (sockets : ClientId → Socket) : Links := fun c p => (sockets c).deliverable p

/-- The broker takes a reply. -/
def reply (sockets : ClientId → Socket) (w : Traffic) (r : Reply) : Traffic :=
  { w with
    broker := (w.broker.deliverReply (links sockets) r).1
    offers := w.offers ++ w.broker.offers r
    effects := w.effects ++ (w.broker.deliverReply (links sockets) r).2 }

/-- What the broker offers in place of a machine that is gone. -/
def instead (machineOpen : Bool) (b : Broker) (e : Event) : List (ClientId × Reply) :=
  if machineOpen then []
  else
    match b.ask? e with
    | some r => b.offers (Broker.unavailable r)
    | none => []

/-- The broker takes an event. -/
def event (sockets : ClientId → Socket) (machineOpen : Bool) (w : Traffic) (e : Event) :
    Traffic where
  broker := (w.broker.handle (links sockets) machineOpen e).1
  pending := w.pending ++ requests (w.broker.handle (links sockets) machineOpen e).2
  heard := w.heard ++ [e]
  offers := w.offers ++ instead machineOpen w.broker e
  effects := w.effects ++ (w.broker.handle (links sockets) machineOpen e).2

/-- What can come next. A client is accepted before its packets come; the machine replies to what is
pending, and no more after the last reply. -/
inductive Step (sockets : ClientId → Socket) : Traffic → Traffic → Prop where
  | event {w : Traffic} (machineOpen : Bool) (e : Event)
      (order : ∀ d p, e = .packet d p → .accepted d ∈ w.heard) :
      Step sockets w (w.event sockets machineOpen e)
  | more {w : Traffic} {r : Request} {q : Packet} (serial : Nat) (asked : r ∈ w.pending)
      (continues : r.Continues q) :
      Step sockets w (w.reply sockets ⟨serial, r.origin, r.target?, q⟩)
  | last {w : Traffic} {r : Request} {q : Packet} {front back : List Request} (serial : Nat)
      (asked : w.pending = front ++ r :: back) (settles : r.Settles q) :
      Step sockets w
        ({ w with pending := front ++ back }.reply sockets ⟨serial, r.origin, r.target?, q⟩)

/-- A run during which the link of a client stays open. -/
inductive Run (c : ClientId) : Traffic → Prop where
  | start : Run c .start
  | step {sockets : ClientId → Socket} {w k : Traffic} (before : Run c w)
      (linked : (sockets c).linked) (step : Step sockets w k) (kept : .hangUp c ∉ k.effects) :
      Run c k

/-! ## One transaction -/

section

variable (c : ClientId) (x : String)

/-- Whether an event is an execute of a client under an id. -/
def isExecute : Event → Bool
  | .packet d p => decide (d = c ∧ p.tx = x) && p.type == .execute
  | _ => false

def isCancel : Event → Bool
  | .packet d p => decide (d = c ∧ p.tx = x) && p.type == .cancel
  | _ => false

/-- Whether a request is that of an execute of a client under an id. -/
def asksExecute : Request → Bool
  | .execute d _ p => decide (d = c ∧ p.tx = x)
  | .cancel .. => false

def asksCancel : Request → Bool
  | .cancel d tx => decide (d = c ∧ tx = x)
  | .execute .. => false

/-- A client uses an id for one execute and for cancels of it only. -/
structure OneExecute (w : Traffic) : Prop where
  kinds : ∀ p, .packet c p ∈ w.heard → p.tx = x → p.type = .execute ∨ p.type = .cancel
  once : w.heard.countP (isExecute c x) ≤ 1

/-- Of the requests that events asked for, each is pending or was settled. -/
def Balanced (asks : Request → Bool) (asked : Event → Bool) (pending : List Request)
    (heard : List Event) (settled : Nat) : Prop :=
  pending.countP asks + settled = heard.countP asked

/-- The cancels of a transaction and their answers. -/
structure Booked (pending : List Request) (heard : List Event) (offered : List Packet) : Prop where
  sorts : Replies offered
  cancels : Balanced (asksCancel c x) (isCancel c x) pending heard (answers offered)

/-- The execute of a transaction and the end of its stream, behind which nothing is offered. -/
structure Streamed (pending : List Request) (heard : List Event) (offered : List Packet) :
    Prop where
  ends : EndsOnce offered
  executes : Balanced (asksExecute c x) (isExecute c x) pending heard (endings offered)

end

variable {c : ClientId} {x : String}

section

variable {pending front back : List Request} {heard : List Event} {offered new : List Packet}
  {r : Request} {q : Packet} {e : Event}

namespace Balanced

variable {asks : Request → Bool} {asked : Event → Bool} {settled : Nat}

/-- An event that asks for nothing. -/
theorem idle (h : Balanced asks asked pending heard settled) (none : asked e = false) :
    Balanced asks asked pending (heard ++ [e]) settled := by
  unfold Balanced at h ⊢
  rw [List.countP_append, List.countP_singleton, none]
  exact h

/-- An event that asks for something. -/
theorem ask (h : Balanced asks asked pending heard settled) (same : asked e = asks r) :
    Balanced asks asked (pending ++ [r]) (heard ++ [e]) settled := by
  unfold Balanced at h ⊢
  simp only [List.countP_append, List.countP_singleton, same]
  omega

theorem settle (h : Balanced asks asked (front ++ r :: back) heard settled) :
    Balanced asks asked (front ++ back) heard (settled + if asks r then 1 else 0) := by
  unfold Balanced at h ⊢
  rw [List.countP_append, List.countP_cons] at h
  rw [List.countP_append]
  omega

/-- What was asked for once and is pending has not been settled. -/
theorem unsettled (h : Balanced asks asked pending heard settled) (once : heard.countP asked ≤ 1)
    (member : r ∈ pending) (one : asks r = true) : settled = 0 := by
  have here : 0 < pending.countP asks := List.countP_pos_iff.2 ⟨r, member, one⟩
  unfold Balanced at h
  omega

end Balanced

/-! ## Cancels -/

namespace Booked

/-- Replies to an execute answer no cancel. -/
theorem output (h : Booked c x pending heard offered) (type : ∀ p ∈ new, p.type = .respondExecute) :
    Booked c x pending heard (offered ++ new) where
  sorts p member := by
    rcases List.mem_append.1 member with before | here
    · exact h.sorts p before
    · exact .inr (type p here)
  cancels := by
    have none : answers new = 0 := List.countP_eq_zero.2 fun p member => by simp [type p member]
    rw [answers_append, none]
    exact h.cancels

/-- The answer to a cancel. -/
theorem answer {tx : String} {d : ClientId}
    (h : Booked c x (front ++ .cancel d tx :: back) heard offered) (type : q.type = .respond)
    (same : q.tx = tx) :
    Booked c x (front ++ back) heard (offered ++ if d = c ∧ q.tx = x then [q] else []) where
  sorts p member := by
    rcases List.mem_append.1 member with before | here
    · exact h.sorts p before
    · split at here
      · exact .inl (List.mem_singleton.1 here ▸ type)
      · cases here
  cancels := by
    have asks : asksCancel c x (.cancel d tx) = decide (d = c ∧ q.tx = x) := by
      rw [same]
      rfl
    have settled := h.cancels.settle
    rw [asks] at settled
    rw [answers_append]
    by_cases mine : d = c ∧ q.tx = x
    · simpa [mine, answers, type] using settled
    · simpa [mine, answers] using settled

/-- A reply that is not the last. -/
theorem more {b : Broker} {serial : Nat} (h : Booked c x pending heard offered)
    (continues : r.Continues q) :
    Booked c x pending heard
      (offered ++ offeredTo c x (b.offers ⟨serial, r.origin, r.target?, q⟩)) := by
  cases r with
  | cancel d tx => cases continues
  | execute d t p =>
    exact h.output fun p member => Broker.eq_of_mem_offeredTo member ▸ continues.1

/-- The last reply. -/
theorem last {b : Broker} {serial : Nat} (h : Booked c x (front ++ r :: back) heard offered)
    (settles : r.Settles q) :
    Booked c x (front ++ back) heard
      (offered ++ offeredTo c x (b.offers ⟨serial, r.origin, r.target?, q⟩)) := by
  cases r with
  | cancel d tx =>
    rw [Broker.offeredTo_offers (Broker.ownOnly_of_no_target rfl)]
    exact h.answer settles.1 settles.2
  | execute d t p =>
    have fewer : Booked c x (front ++ back) heard offered := ⟨h.sorts, h.cancels.settle⟩
    exact fewer.output fun p member => Broker.eq_of_mem_offeredTo member ▸ settles.1

end Booked

/-! ## Executes -/

/-- A reply to an execute carries the id of the request. -/
theorem asksExecute_of_reply (reply : r.Continues q ∨ r.Settles q)
    (type : q.type = .respondExecute) :
    asksExecute c x r = decide (r.origin = c ∧ q.tx = x) := by
  cases r with
  | execute d t p =>
    have tx : q.tx = p.tx := by
      rcases reply with continues | settles
      · exact continues.2.1
      · exact settles.2.1
    rw [tx]
    rfl
  | cancel d tx =>
    rcases reply with continues | settles
    · cases continues
    · simp [settles.1] at type

namespace Streamed

/-- While an execute is pending, any reply to it may be offered. -/
theorem ends_append (h : Streamed c x pending heard offered)
    (once : heard.countP (isExecute c x) ≤ 1) (asked : r ∈ pending)
    (reply : r.Continues q ∨ r.Settles q) :
    EndsOnce (offered ++ if r.origin = c ∧ q.tx = x then [q] else []) := by
  split
  · next mine =>
    refine endsOnce_append_one.2 ⟨h.ends, fun type => ?_⟩
    have asks : asksExecute c x r = true := by
      rw [asksExecute_of_reply reply type]
      exact decide_eq_true mine
    exact h.executes.unsettled once asked asks
  · rw [List.append_nil]
    exact h.ends

/-- A reply that is not the last. -/
theorem more (h : Streamed c x pending heard offered) (once : heard.countP (isExecute c x) ≤ 1)
    (asked : r ∈ pending) (continues : r.Continues q) :
    Streamed c x pending heard (offered ++ if r.origin = c ∧ q.tx = x then [q] else []) where
  ends := h.ends_append once asked (.inl continues)
  executes := by
    have goes : q.isTerminal = false := by
      cases r with
      | cancel d tx => cases continues
      | execute d t p => exact continues.2.2
    have none : endings (if r.origin = c ∧ q.tx = x then [q] else []) = 0 := by
      split <;> simp [endings, goes]
    rw [endings_append, none]
    exact h.executes

/-- The last reply. -/
theorem last (h : Streamed c x (front ++ r :: back) heard offered)
    (once : heard.countP (isExecute c x) ≤ 1) (settles : r.Settles q) :
    Streamed c x (front ++ back) heard
      (offered ++ if r.origin = c ∧ q.tx = x then [q] else []) where
  ends := h.ends_append once (by simp) (.inr settles)
  executes := by
    have settled := h.executes.settle
    rw [endings_append]
    cases r with
    | execute d t p =>
      rw [asksExecute_of_reply (.inr settles) settles.1] at settled
      by_cases mine : d = c ∧ q.tx = x
      · simpa [Request.origin, mine, endings, settles.1, settles.2.2] using settled
      · simpa [Request.origin, mine, endings] using settled
    | cancel d tx =>
      have none : endings (if d = c ∧ q.tx = x then [q] else []) = 0 := by
        split <;> simp [endings, settles.1]
      rw [Request.origin, none]
      exact settled

end Streamed

end

/-! ## What a broker keeps -/

/-- A client that was accepted is known; what it is offered of a transaction has passed; its
requests are booked. Its stream ends once unless it is offered replies to others under the same id.
-/
structure Kept (c : ClientId) (x : String) (w : Traffic) : Prop where
  known : .accepted c ∈ w.heard → Table.has w.broker.clients c
  asked : ∀ r ∈ w.pending, r.origin = c → Table.has w.broker.clients c
  enrolled : Broker.Enrolled w.broker c
  delivered : deliveredTo c x w.effects = (passAll false (offeredTo c x w.offers)).2
  withheld : w.broker.withholds c x = (passAll false (offeredTo c x w.offers)).1
  booked : Booked c x w.pending w.heard (offeredTo c x w.offers)
  streamed : Broker.OwnOnly c x w.offers →
    Streamed c x w.pending w.heard (offeredTo c x w.offers)

theorem kept_start (c : ClientId) (x : String) : Kept c x .start where
  known member := by cases member
  asked := by simp [start]
  enrolled held := by
    obtain ⟨entry, member, -⟩ := held
    cases member
  delivered := rfl
  withheld := rfl
  booked := ⟨by simp [Replies, start, offeredTo], rfl⟩
  streamed _ := ⟨trivial, rfl⟩

variable {sockets : ClientId → Socket} {w k : Traffic}

theorem connected (linked : (sockets c).linked) : Broker.Connected (links sockets) c := by
  intro p
  cases frame : Frame.encode p with
  | ok bytes => simp [links, Socket.deliverable, frame, linked]
  | error v => simp [links, Socket.deliverable, frame]

/-- Whether it is open or not, a socket refuses as too large what is too large. -/
theorem faithful (sockets : ClientId → Socket) (c : ClientId) :
    Broker.Faithful (links sockets) c where
  fits p reached := by
    cases frame : Frame.encode p with
    | ok bytes => exact ⟨bytes, rfl⟩
    | error v => simp [links, Socket.deliverable, frame] at reached
  large p v large := by
    cases frame : Frame.encode p with
    | ok bytes =>
      simp only [links, Socket.deliverable, frame] at large
      split at large <;> simp at large
    | error w => simpa [links, Socket.deliverable, frame] using large

/-- What passes on top of what has passed. -/
theorem Kept.passed (h : Kept c x w) {os : List (ClientId × Reply)} {o : Broker.Outcome}
    (relays : Broker.Relays c x w.broker (offeredTo c x os) o) :
    deliveredTo c x (w.effects ++ o.2) = (passAll false (offeredTo c x (w.offers ++ os))).2 ∧
      o.1.withholds c x = (passAll false (offeredTo c x (w.offers ++ os))).1 := by
  have delivered := relays.delivered
  have withheld := relays.withheld
  rw [h.withheld] at delivered withheld
  rw [deliveredTo_append, offeredTo_append, passAll_append, h.delivered, delivered, withheld]
  exact ⟨rfl, rfl⟩

/-- A reply to something that was pending. -/
theorem Kept.reply (h : Kept c x w) {r : Request} {q : Packet}
    {serial : Nat} {pending : List Request} (asked : r ∈ w.pending)
    (kept : .hangUp c ∉
      (w.broker.deliverReply (links sockets) ⟨serial, r.origin, r.target?, q⟩).2)
    (fewer : ∀ r ∈ pending, r ∈ w.pending)
    (booked : Booked c x pending w.heard (offeredTo c x w.offers ++
      offeredTo c x (w.broker.offers ⟨serial, r.origin, r.target?, q⟩)))
    (streamed : Broker.OwnOnly c x w.offers → Streamed c x pending w.heard
      (offeredTo c x w.offers ++ if r.origin = c ∧ q.tx = x then [q] else [])) :
    Kept c x ({ w with pending := pending }.reply sockets ⟨serial, r.origin, r.target?, q⟩) := by
  have relays := Broker.deliverReply_relays (x := x) (faithful sockets c) h.enrolled (h.asked r asked)
    kept
  obtain ⟨delivered, withheld⟩ := h.passed relays
  exact
    { known := fun accepted => relays.stays.known (h.known accepted)
      asked := fun s member mine => relays.stays.known (h.asked s (fewer s member) mine)
      enrolled := relays.stays.enrolled h.enrolled
      delivered := delivered
      withheld := withheld
      booked := by
        rw [← offeredTo_append] at booked
        exact booked
      streamed := fun own => by
        obtain ⟨before, here⟩ := Broker.ownOnly_append.1 own
        have streamed := streamed before
        rw [← Broker.offeredTo_offers here, ← offeredTo_append] at streamed
        exact streamed }

/-! ## Events -/

/-- What an event asks for is booked as what it is; it is a packet of a client that is known. -/
theorem ask_counts {b : Broker} {e : Event} {r : Request} (asks : b.ask? e = some r) :
    isExecute c x e = asksExecute c x r ∧ isCancel c x e = asksCancel c x r ∧
      Table.has b.clients r.origin ∧ e ≠ .accepted c := by
  cases e with
  | accepted d => cases asks
  | closed d => cases asks
  | packet d p =>
    obtain ⟨connected, found, asks⟩ := Option.bind_eq_some_iff.1 asks
    have known : Table.has b.clients d := Option.isSome_iff_exists.2 ⟨connected, found⟩
    split at asks
    · next type =>
      cases asks
      simp [isExecute, isCancel, asksExecute, asksCancel, type, Request.origin, known]
    · next type =>
      cases asks
      simp [isExecute, isCancel, asksExecute, asksCancel, type, Request.origin, known]
    · cases asks

theorem unavailable_settles (r : Request) : r.Settles (Broker.unavailable r).packet := by
  cases r with
  | execute d t p => exact ⟨rfl, rfl, by simp [Broker.unavailable]⟩
  | cancel d tx => exact ⟨rfl, rfl⟩

theorem unavailable_eq (r : Request) :
    Broker.unavailable r = ⟨0, r.origin, r.target?, (Broker.unavailable r).packet⟩ := by
  cases r <;> rfl

/-- What an event asks for becomes pending. -/
theorem Kept.asking (h : Kept c x w) {e : Event} {r : Request} (asks : w.broker.ask? e = some r) :
    Kept c x { w with pending := w.pending ++ [r], heard := w.heard ++ [e] } := by
  obtain ⟨execute, cancel, known, packet⟩ := ask_counts (c := c) (x := x) asks
  exact
    { known := fun accepted => h.known (by simpa [packet.symm] using accepted)
      asked := fun s member mine => by
        rcases List.mem_append.1 member with before | here
        · exact h.asked s before mine
        · obtain rfl := List.mem_singleton.1 here
          exact mine ▸ known
      enrolled := h.enrolled
      delivered := h.delivered
      withheld := h.withheld
      booked := ⟨h.booked.sorts, h.booked.cancels.ask cancel⟩
      streamed := fun own => ⟨(h.streamed own).ends, (h.streamed own).executes.ask execute⟩ }

/-- What is asked for is passed on to the machine, or answered in its place. -/
theorem Kept.asked_event (h : Kept c x w) {machineOpen : Bool}
    {e : Event} {r : Request} (asks : w.broker.ask? e = some r)
    (once : (w.heard ++ [e]).countP (isExecute c x) ≤ 1)
    (kept : .hangUp c ∉ (w.event sockets machineOpen e).effects) :
    Kept c x (w.event sockets machineOpen e) := by
  have pending := h.asking asks
  have handled : w.broker.handle (links sockets) machineOpen e = _ := Broker.handle_ask asks
  cases machineOpen with
  | true =>
    have shape : w.event sockets true e =
        ⟨w.broker, w.pending ++ [r], w.heard ++ [e], w.offers, w.effects ++ [.request r]⟩ := by
      simp [event, handled, instead, requests]
    have delivered : deliveredTo c x (w.effects ++ [.request r]) = deliveredTo c x w.effects := by
      rw [deliveredTo_append]
      exact List.append_nil _
    rw [shape]
    exact { pending with delivered := delivered.trans h.delivered }
  | false =>
    -- What is asked for is pending, and settled by the broker itself at once.
    have here : .hangUp c ∉
        (w.broker.deliverReply (links sockets) (Broker.unavailable r)).2 := fun member =>
      kept (List.mem_append_right _ (by simpa [handled] using member))
    rw [unavailable_eq] at here
    have relays := Broker.deliverReply_relays (x := x) (faithful sockets c) h.enrolled
      (pending.asked r (by simp)) here
    rw [← unavailable_eq] at relays
    have shape : w.event sockets false e =
        { w with pending := w.pending ++ [], heard := w.heard ++ [e] }.reply sockets
          (Broker.unavailable r) := by
      simp [event, handled, instead, asks, Traffic.reply, relays.silent]
    rw [shape, unavailable_eq]
    have settles := unavailable_settles r
    exact pending.reply (by simp) here (by simp +contextual)
      (pending.booked.last settles) fun own => (pending.streamed own).last once settles

/-- An event that asks for nothing. -/
theorem Kept.quiet (h : Kept c x w) {machineOpen : Bool} {e : Event}
    (asks : w.broker.ask? e = none) (order : ∀ d p, e = .packet d p → .accepted d ∈ w.heard)
    (kinds : ∀ p, .packet c p ∈ w.heard ++ [e] → p.tx = x → p.type = .execute ∨ p.type = .cancel)
    (kept : .hangUp c ∉ (w.event sockets machineOpen e).effects) :
    Kept c x (w.event sockets machineOpen e) := by
  have here : .hangUp c ∉ (w.broker.handle (links sockets) machineOpen e).2 := fun member =>
    kept (List.mem_append_right _ member)
  have relays := Broker.handle_relays (x := x) asks
    (fun p packet => kinds p (by simp [packet])) here
  have shape : w.event sockets machineOpen e =
      ⟨(w.broker.handle (links sockets) machineOpen e).1, w.pending, w.heard ++ [e], w.offers,
        w.effects ++ (w.broker.handle (links sockets) machineOpen e).2⟩ := by
    simp [event, instead, asks, relays.silent]
  -- An execute or a cancel of the client would have asked for something.
  have unasked (p : Packet) (packet : e = .packet c p) :
      p.type ≠ .execute ∧ p.type ≠ .cancel := by
    subst packet
    exact Broker.types_of_unasked (h.known (order c p rfl)) asks here
  have idle : isExecute c x e = false ∧ isCancel c x e = false := by
    cases e with
    | accepted d => exact ⟨rfl, rfl⟩
    | closed d => exact ⟨rfl, rfl⟩
    | packet d p =>
      by_cases mine : d = c
      · subst mine
        obtain ⟨execute, cancel⟩ := unasked p rfl
        simp [isExecute, isCancel, execute, cancel]
      · simp [isExecute, isCancel, mine]
  have passed : Broker.Relays c x w.broker (offeredTo c x []) _ := relays
  obtain ⟨delivered, withheld⟩ := h.passed passed
  rw [List.append_nil] at delivered withheld
  rw [shape]
  exact
    { known := fun accepted => by
        rcases List.mem_append.1 accepted with before | now
        · exact relays.stays.known (h.known before)
        · obtain rfl := List.mem_singleton.1 now
          simp [Broker.handle, Table.has, Table.find?_put]
      asked := fun s member mine => relays.stays.known (h.asked s member mine)
      enrolled := relays.stays.enrolled h.enrolled
      delivered := delivered
      withheld := withheld
      booked := ⟨h.booked.sorts, h.booked.cancels.idle idle.2⟩
      streamed := fun own => ⟨(h.streamed own).ends, (h.streamed own).executes.idle idle.1⟩ }

/-! ## Runs -/

/-- What was heard stays so. -/
theorem Step.heard (step : Step sockets w k) : w.heard <+: k.heard := by
  cases step with
  | event machineOpen e order => exact List.prefix_append ..
  | more serial asked continues => exact List.prefix_rfl
  | last serial asked settles => exact List.prefix_rfl

theorem OneExecute.before (one : OneExecute c x k) (step : Step sockets w k) :
    OneExecute c x w := by
  exact
    { kinds := fun p member => one.kinds p (step.heard.subset member)
      once := step.heard.sublist.countP_le.trans one.once }

theorem Kept.step (h : Kept c x w) (step : Step sockets w k)
    (one : OneExecute c x k) (kept : .hangUp c ∉ k.effects) : Kept c x k := by
  have once : w.heard.countP (isExecute c x) ≤ 1 := (one.before step).once
  cases step with
  | event machineOpen e order =>
    cases asks : w.broker.ask? e with
    | some r => exact h.asked_event asks one.once kept
    | none => exact h.quiet asks order one.kinds kept
  | more serial asked continues =>
    exact h.reply asked (fun member => kept (List.mem_append_right _ member))
      (fun _ member => member) (h.booked.more continues)
      fun own => (h.streamed own).more once asked continues
  | @last r q front back serial asked settles =>
    have fewer : ∀ s ∈ front ++ back, s ∈ w.pending := by
      intro s member
      rw [asked]
      exact (List.sublist_cons_self r back).append_left front |>.subset member
    exact h.reply (by simp [asked]) (fun member => kept (List.mem_append_right _ member))
      fewer ((asked ▸ h.booked).last settles)
      fun own => (asked ▸ h.streamed own).last once settles

theorem Run.kept (run : Run c w) (one : OneExecute c x w) : Kept c x w := by
  induction run with
  | start => exact kept_start c x
  | step before linked step kept ih => exact (ih (one.before step)).step step one kept

end Traffic

end Patchbay
