import Patchbay.Proofs.Subscriptions
import Patchbay.Proofs.Broker.Withholding

/-!
# Sending

What the broker's operations come to for one client and one transaction: the packets of it that are
offered to the client pass one after the other, and nothing else is delivered to the client of that
transaction. This holds as long as the broker does not hang up on the client.
-/

namespace Patchbay

/-- What a client is sent of a transaction. -/
def deliveredTo (c : ClientId) (x : String) (effects : List Effect) : List Packet :=
  effects.filterMap fun
    | .deliver d p => if d = c ∧ p.tx = x then some p else none
    | _ => none

/-- What the machine is asked. -/
def requests (effects : List Effect) : List Request :=
  effects.filterMap fun
    | .request r => some r
    | _ => none

@[simp] theorem deliveredTo_append (c : ClientId) (x : String) (es fs : List Effect) :
    deliveredTo c x (es ++ fs) = deliveredTo c x es ++ deliveredTo c x fs :=
  List.filterMap_append

@[simp] theorem requests_append (es fs : List Effect) :
    requests (es ++ fs) = requests es ++ requests fs :=
  List.filterMap_append

namespace Broker

/-- Whether packets of a transaction are withheld from a client. -/
def withholds (b : Broker) (c : ClientId) (x : String) : Bool := b.undeliverable.contains (c, x)

/-- A client's link is open: exactly what fits a frame reaches it. -/
def Connected (links : Links) (c : ClientId) : Prop :=
  ∀ p, links c p =
    match Frame.encode p with
    | .ok _ => .ok ()
    | .error v => .error (.violation v)

/-- What a client's link says of a packet is true of it: nothing reaches the client that does not fit
a frame, and only what does not fit is said to be too large. The link may be closed. -/
structure Faithful (links : Links) (c : ClientId) : Prop where
  fits : ∀ p, links c p = .ok () → ∃ bytes, Frame.encode p = .ok bytes
  large : ∀ p v, links c p = .error (.violation v) → Frame.encode p = .error v

/-- A client that is subscribed is known. -/
def Enrolled (b : Broker) (c : ClientId) : Prop :=
  b.subscriptions.Holds c → Table.has b.clients c

/-- A client stays known, and known when it is subscribed. -/
structure Stays (c : ClientId) (b b' : Broker) : Prop where
  known : Table.has b.clients c → Table.has b'.clients c
  enrolled : Enrolled b c → Enrolled b' c

/-- For a client and a transaction, an outcome is that of passing some packets. The broker asks the
machine for nothing on the way. -/
structure Relays (c : ClientId) (x : String) (b : Broker) (ps : List Packet) (o : Outcome) :
    Prop where
  stays : Stays c b o.1
  delivered : deliveredTo c x o.2 = (passAll (b.withholds c x) ps).2
  withheld : o.1.withholds c x = (passAll (b.withholds c x) ps).1
  silent : requests o.2 = []

variable {c d : ClientId} {x : String} {b : Broker} {links : Links} {p : Packet}

theorem Stays.refl (c : ClientId) (b : Broker) : Stays c b b := ⟨id, id⟩

theorem Stays.trans {b' b'' : Broker} (first : Stays c b b') (second : Stays c b' b'') :
    Stays c b b'' where
  known known := second.known (first.known known)
  enrolled enrolled := second.enrolled (first.enrolled enrolled)

/-- Only clients that are known come in among those that are subscribed. -/
theorem Stays.of_holds {b' : Broker} (known : Table.has b.clients c → Table.has b'.clients c)
    (holds : b'.subscriptions.Holds c → b.subscriptions.Holds c ∨ Table.has b'.clients c) :
    Stays c b b' where
  known := known
  enrolled enrolled held := by
    rcases holds held with before | here
    · exact known (enrolled before)
    · exact here

/-- Nothing is passed where nothing is delivered and the same transactions are withheld. -/
theorem Relays.nothing {o : Outcome} (stays : Stays c b o.1)
    (delivered : deliveredTo c x o.2 = []) (withheld : o.1.withholds c x = b.withholds c x)
    (silent : requests o.2 = []) : Relays c x b [] o :=
  ⟨stays, delivered, withheld, silent⟩

theorem Relays.andThen {ps qs : List Packet} {o : Outcome} {next : Broker → Outcome}
    (first : Relays c x b ps o) (second : Relays c x o.1 qs (next o.1)) :
    Relays c x b (ps ++ qs) (andThen o next) where
  stays := first.stays.trans second.stays
  delivered := by
    have later := second.delivered
    rw [first.withheld] at later
    rw [passAll_append, Broker.andThen, deliveredTo_append, first.delivered, later]
  withheld := by
    have later := second.withheld
    rw [first.withheld] at later
    rw [passAll_append, Broker.andThen, later]
  silent := by rw [Broker.andThen, requests_append, first.silent, second.silent, List.append_nil]

/-- What is passed depends on the transactions that are withheld, not on the rest of the broker. -/
theorem Relays.of_start {b' : Broker} {ps : List Packet} {o : Outcome}
    (relays : Relays c x b' ps o) (stays : Stays c b b')
    (same : b'.undeliverable = b.undeliverable) : Relays c x b ps o := by
  have withheld : b'.withholds c x = b.withholds c x := by rw [withholds, withholds, same]
  exact
    { stays := stays.trans relays.stays
      delivered := withheld ▸ relays.delivered
      withheld := withheld ▸ relays.withheld
      silent := relays.silent }

/-! ## Hanging up -/

theorem hangUp_of_known (known : Table.has b.clients c) : .hangUp c ∈ (b.removeClient c).2 := by
  simp [removeClient, known]

theorem removeClient_relays (kept : .hangUp c ∉ (b.removeClient d).2) :
    Relays c x b [] (b.removeClient d) := by
  unfold removeClient
  split
  · next known =>
    have other : d ≠ c := by
      rintro rfl
      exact kept (hangUp_of_known known)
    have known (known : Table.has b.clients c) : Table.has (Table.erase b.clients d) c := by
      simpa [Table.has, Table.find?_erase, other] using known
    refine .nothing (.of_holds known ?_) rfl ?_ rfl
    · exact fun held => .inl (Subscriptions.holds_of_removeClient held)
    · simp [withholds, other.symm]
  · exact .nothing (.refl c b) rfl rfl rfl

/-! ## One client -/

/-- The broker once a reply of a transaction was too large. -/
def withhold (b : Broker) (c : ClientId) (p : Packet) : Broker :=
  if opensStream p then { b with undeliverable := (c, p.tx) :: b.undeliverable } else b

/-- All that sending can come to. -/
inductive Sent (links : Links) (b : Broker) (c : ClientId) (p : Packet) : Outcome → Prop where
  | last (withheld : b.withholds c p.tx = true) (ends : p.isTerminal = true) :
      Sent links b c p
        ({ b with undeliverable := b.undeliverable.filter (· ≠ (c, p.tx)) }, [])
  | more (withheld : b.withholds c p.tx = true) (goes : p.isTerminal = false) :
      Sent links b c p (b, [])
  | unknown (free : b.withholds c p.tx = false) (stranger : Table.has b.clients c = false) :
      Sent links b c p (b, [])
  | whole (free : b.withholds c p.tx = false) (reached : links c p = .ok ()) :
      Sent links b c p (b, [.deliver c p])
  | replaced (free : b.withholds c p.tx = false) {v : Violation}
      (large : links c p = .error (.violation v)) :
      Sent links b c p (b.withhold c p, [.deliver c (replacement p v)])
  | lost (free : b.withholds c p.tx = false) : Sent links b c p ((b.withhold c p).removeClient c)
  | gone (free : b.withholds c p.tx = false) : Sent links b c p (b.removeClient c)

theorem send_sent (links : Links) (b : Broker) (c : ClientId) (p : Packet) :
    Sent links b c p (b.send links c p) := by
  unfold send
  dsimp only
  split
  · next member =>
    have withheld : b.withholds c p.tx = true := by simpa [withholds] using member
    split
    · next ends => exact .last withheld ends
    · next goes => exact .more withheld (by simpa using goes)
  · next member =>
    have free : b.withholds c p.tx = false := by simpa [withholds] using member
    split
    · next stranger => exact .unknown free (by simpa using stranger)
    · split
      · next reached => exact .whole free reached
      · next v large =>
        split
        · exact .replaced free large
        · exact .lost free
      · exact .gone free

theorem withhold_stays (b : Broker) (p : Packet) : Stays c b (b.withhold d p) := by
  unfold withhold
  split
  · exact .of_holds id .inl
  · exact .refl c b

theorem withhold_withholds (b : Broker) (p : Packet) :
    (b.withhold d p).withholds c x =
      (b.withholds c x || (opensStream p && decide (d = c ∧ p.tx = x))) := by
  unfold withhold
  cases opensStream p with
  | false => simp
  | true =>
    rw [Bool.eq_iff_iff]
    simp [withholds, @eq_comm _ c d, @eq_comm _ x p.tx, or_comm]

/-- A failure is sent in place of a reply that is too large. -/
theorem send_replaced {v : Violation} (free : b.withholds c p.tx = false)
    (known : Table.has b.clients c) (large : links c p = .error (.violation v))
    (reached : links c (replacement p v) = .ok ()) :
    b.send links c p = (b.withhold c p, [.deliver c (replacement p v)]) := by
  have absent : (c, p.tx) ∉ b.undeliverable := by simpa [withholds] using free
  simp only [send, absent, if_false, known, Bool.not_true, Bool.false_eq_true, large, reached]
  rfl

/-- A packet of another transaction, or for another client. -/
theorem send_other (apart : ¬ (d = c ∧ p.tx = x)) (kept : .hangUp c ∉ (b.send links d p).2) :
    Relays c x b [] (b.send links d p) := by
  have elsewhere (q : Packet) (tx : q.tx = p.tx) : deliveredTo c x [.deliver d q] = [] := by
    simp only [deliveredTo, List.filterMap_cons, tx, List.filterMap_nil, if_neg apart]
  have same : (b.withhold d p).withholds c x = b.withholds c x := by
    simp [withhold_withholds, apart]
  generalize outcome : b.send links d p = o at kept ⊢
  have sent := outcome ▸ send_sent links b d p
  cases sent with
  | last withheld ends =>
    have foreign : (c, x) ≠ (d, p.tx) := fun equal => apart (by simpa [eq_comm] using equal)
    exact .nothing (.of_holds id .inl) rfl (by simp [withholds, foreign]) rfl
  | more withheld goes => exact .nothing (.refl c b) rfl rfl rfl
  | unknown free stranger => exact .nothing (.refl c b) rfl rfl rfl
  | whole free reached => exact .nothing (.refl c b) (elsewhere p rfl) rfl rfl
  | replaced free large =>
    exact .nothing (withhold_stays b p) (elsewhere _ (replacement_tx p _)) same rfl
  | lost free =>
    have after : Relays c x (b.withhold d p) [] _ := removeClient_relays kept
    exact
      { stays := (withhold_stays b p).trans after.stays
        delivered := after.delivered
        withheld := after.withheld.trans same
        silent := after.silent }
  | gone free => exact removeClient_relays kept

/-- A packet of the transaction passes. -/
theorem send_own (faithful : Faithful links c) (known : Table.has b.clients c)
    (kept : .hangUp c ∉ (b.send links c p).2) : Relays c p.tx b [p] (b.send links c p) := by
  have here (q : Packet) (tx : q.tx = p.tx) : deliveredTo c p.tx [.deliver c q] = [q] := by
    simp [deliveredTo, tx]
  generalize outcome : b.send links c p = o at kept ⊢
  have sent := outcome ▸ send_sent links b c p
  cases sent with
  | last withheld ends =>
    refine ⟨.of_holds id .inl, ?_, ?_, rfl⟩
    · simp [withheld, passAll, pass_withheld, deliveredTo]
    · rw [withheld]
      simp [passAll, pass_withheld, ends, withholds]
  | more withheld goes =>
    refine ⟨.refl c b, ?_, ?_, rfl⟩
    · simp [withheld, passAll, pass_withheld, deliveredTo]
    · simp [withheld, passAll, pass_withheld, goes]
  | unknown free stranger => simp [known] at stranger
  | whole free reached =>
    obtain ⟨bytes, frame⟩ := faithful.fits p reached
    refine ⟨.refl c b, ?_, ?_, rfl⟩
    · simp [free, passAll, pass_fits frame, here p rfl]
    · simp [free, passAll, pass_fits frame]
  | @replaced free v large =>
    have frame := faithful.large p v large
    refine ⟨withhold_stays b p, ?_, ?_, rfl⟩
    · simp [free, passAll, pass_large frame, here _ (replacement_tx p v)]
    · simp [free, passAll, pass_large frame, withhold_withholds]
  | lost free => exact absurd (hangUp_of_known ((withhold_stays b p).known known)) kept
  | gone free => exact absurd (hangUp_of_known known) kept

/-- Sending to a client removes it only by hanging up on it. -/
theorem send_stays (kept : .hangUp c ∉ (b.send links c p).2) (known : Table.has b.clients c) :
    Table.has (b.send links c p).1.clients c := by
  generalize outcome : b.send links c p = o at kept ⊢
  have sent := outcome ▸ send_sent links b c p
  cases sent with
  | last | more | unknown | whole => exact known
  | replaced free large => exact (withhold_stays b p).known known
  | lost free => exact absurd (hangUp_of_known ((withhold_stays b p).known known)) kept
  | gone free => exact absurd (hangUp_of_known known) kept

/-! ## Several clients -/

/-- Going on, the broker has hung up on nobody that it is not said to have hung up on. -/
theorem kept_first {o : Outcome} {next : Broker → Outcome} (kept : .hangUp c ∉ (andThen o next).2) :
    .hangUp c ∉ o.2 := fun member => kept (List.mem_append_left _ member)

theorem kept_second {o : Outcome} {next : Broker → Outcome}
    (kept : .hangUp c ∉ (andThen o next).2) : .hangUp c ∉ (next o.1).2 :=
  fun member => kept (List.mem_append_right _ member)

/-- What is offered to a client of a transaction: the replies that are passed on to it. -/
def offeredTo (c : ClientId) (x : String) (offers : List (ClientId × Reply)) : List Packet :=
  offers.filterMap fun (d, r) => if d = c ∧ r.packet.tx = x then some r.packet else none

theorem offeredTo_append (c : ClientId) (x : String) (os ps : List (ClientId × Reply)) :
    offeredTo c x (os ++ ps) = offeredTo c x os ++ offeredTo c x ps :=
  List.filterMap_append

/-- To whom a reply is offered. -/
def offers (b : Broker) (r : Reply) : List (ClientId × Reply) :=
  (b.subscriptions.recipients r.origin r.target).map (·, r)

/-- A reply passes to each client to which it is sent. -/
theorem sendAll_relays {r : Reply} {ds : List ClientId} (faithful : Faithful links c)
    (known : c ∈ ds → Table.has b.clients c) (kept : .hangUp c ∉ (sendAll links r.packet ds b).2) :
    Relays c x b (offeredTo c x (ds.map (·, r))) (sendAll links r.packet ds b) := by
  induction ds generalizing b with
  | nil => exact .nothing (.refl c b) rfl rfl rfl
  | cons d rest ih =>
    have here : Relays c x b (offeredTo c x [(d, r)]) (b.send links d r.packet) := by
      by_cases mine : d = c ∧ r.packet.tx = x
      · obtain ⟨rfl, rfl⟩ := mine
        have one : offeredTo d r.packet.tx [(d, r)] = [r.packet] := by simp [offeredTo]
        rw [one]
        exact send_own faithful (known List.mem_cons_self) (kept_first kept)
      · have none : offeredTo c x [(d, r)] = [] := by simp [offeredTo, mine]
        rw [none]
        exact send_other mine (kept_first kept)
    have later (member : c ∈ rest) : Table.has (b.send links d r.packet).1.clients c :=
      here.stays.known (known (List.mem_cons_of_mem d member))
    rw [List.map_cons, ← List.singleton_append, offeredTo_append]
    exact here.andThen (ih later (kept_second kept))

theorem deliverReply_relays {r : Reply} (faithful : Faithful links c) (enrolled : Enrolled b c)
    (known : r.origin = c → Table.has b.clients c) (kept : .hangUp c ∉ (b.deliverReply links r).2) :
    Relays c x b (offeredTo c x (b.offers r)) (b.deliverReply links r) := by
  refine sendAll_relays faithful (fun member => ?_) kept
  rcases Subscriptions.holds_of_mem_recipients member with origin | held
  · exact known origin.symm
  · exact enrolled held

/-! ## What is offered -/

theorem mem_offers {r s : Reply} :
    (c, s) ∈ b.offers r ↔ c ∈ b.subscriptions.recipients r.origin r.target ∧ s = r := by
  simp [offers, eq_comm]

theorem offeredTo_nil {os : List (ClientId × Reply)}
    (apart : ∀ r, (c, r) ∈ os → r.packet.tx ≠ x) : offeredTo c x os = [] := by
  refine List.filterMap_eq_nil_iff.2 ?_
  rintro ⟨d, r⟩ member
  dsimp only
  rw [if_neg]
  rintro ⟨rfl, tx⟩
  exact apart r member tx

/-- Nothing but the reply itself is offered. -/
theorem eq_of_mem_offeredTo {r : Reply} (member : p ∈ offeredTo c x (b.offers r)) :
    p = r.packet := by
  obtain ⟨⟨d, s⟩, here, offered⟩ := List.mem_filterMap.1 member
  obtain ⟨-, rfl⟩ := mem_offers.1 here
  dsimp only at offered
  split at offered
  · cases offered
    rfl
  · cases offered

/-- The origin of a reply comes first among its recipients, and only there. -/
theorem recipients_origin (s : Subscriptions) (c : ClientId) (t : Option Target) :
    ∃ others, s.recipients c t = c :: others ∧ c ∉ others := by
  cases t with
  | none => exact ⟨[], rfl, List.not_mem_nil⟩
  | some t => exact ⟨_, rfl, by simp⟩

/-- A client is offered only what answers requests of its own. -/
def OwnOnly (c : ClientId) (x : String) (os : List (ClientId × Reply)) : Prop :=
  ∀ r, (c, r) ∈ os → r.packet.tx = x → r.origin = c

theorem ownOnly_append {os ps : List (ClientId × Reply)} :
    OwnOnly c x (os ++ ps) ↔ OwnOnly c x os ∧ OwnOnly c x ps := by
  simp only [OwnOnly, List.mem_append, or_imp, forall_and]

/-- A reply is offered to its origin once, and to others only under the ids of their own. -/
theorem offeredTo_offers {r : Reply} (own : OwnOnly c x (b.offers r)) :
    offeredTo c x (b.offers r) =
      if r.origin = c ∧ r.packet.tx = x then [r.packet] else [] := by
  split
  · next mine =>
    obtain ⟨rfl, rfl⟩ := mine
    obtain ⟨others, all, apart⟩ := recipients_origin b.subscriptions r.origin r.target
    have rest : offeredTo r.origin r.packet.tx (others.map (·, r)) = [] :=
      offeredTo_nil (by simpa using fun member => absurd member apart)
    rw [offers, all, List.map_cons, ← List.singleton_append, offeredTo_append, rest]
    simp [offeredTo]
  · next foreign =>
    refine offeredTo_nil fun s member tx => ?_
    obtain ⟨-, rfl⟩ := mem_offers.1 member
    exact foreign ⟨own s member tx, tx⟩

/-- A reply that has no target is offered to its origin only. -/
theorem ownOnly_of_no_target {r : Reply} (target : r.target = none) : OwnOnly c x (b.offers r) := by
  intro s member tx
  obtain ⟨here, rfl⟩ := mem_offers.1 member
  rw [target] at here
  exact (List.mem_singleton.1 here).symm

end Broker

end Patchbay
