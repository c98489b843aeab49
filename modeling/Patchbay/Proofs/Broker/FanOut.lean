import Patchbay.Proofs.Broker.Coherence
import Patchbay.Proofs.Subscriptions.Interests

/-!
# Fan-out

A reply goes to its origin and to the other subscribers of its target. Each of them that is known, and
from whom its transaction is not withheld, is tried once, in that order, whatever came of the tries
before: a client is removed in the middle of the loop without any other client noticing.

To speak of tries that fail, the same loop is written once more with its tries noted down.
-/

namespace Patchbay.Broker

variable {c d : ClientId} {x : String} {b : Broker} {links : Links} {machineOpen : Bool}
  {p : Packet} {input : Input} {o : Outcome} {r : Reply} {ds : List ClientId}

/-! ## Tries -/

/-- Sends a packet to a client, with what is handed to its link. -/
def sendTraced (links : Links) (b : Broker) (c : ClientId) (p : Packet) :
    Outcome × List (ClientId × Packet) :=
  let key := (c, p.tx)
  if b.withholds c p.tx then
    if p.isTerminal then (({ b with undeliverable := b.undeliverable.filter (· ≠ key) }, []), [])
    else ((b, []), [])
  else if !Table.has b.clients c then ((b, []), [])
  else
    match links c p with
    | .ok _ => ((b, [.deliver c p]), [(c, p)])
    | .error (.violation v) =>
      let failure := replacement p v
      let b := if opensStream p then { b with undeliverable := key :: b.undeliverable } else b
      match links c failure with
      | .ok _ => ((b, [.deliver c failure]), [(c, p), (c, failure)])
      | .error _ => (b.removeClient c, [(c, p), (c, failure)])
    | .error _ => (b.removeClient c, [(c, p)])

def sendAllTraced (links : Links) (p : Packet) :
    List ClientId → Broker → Outcome × List (ClientId × Packet)
  | [], b => ((b, []), [])
  | c :: rest, b =>
    let (first, tried) := b.sendTraced links c p
    let (later, more) := sendAllTraced links p rest first.1
    ((later.1, first.2 ++ later.2), tried ++ more)

def deliverTraced (links : Links) (b : Broker) (r : Reply) : Outcome × List (ClientId × Packet) :=
  sendAllTraced links r.packet (b.subscriptions.recipients r.origin r.target) b

theorem sendTraced_fst (links : Links) (b : Broker) (c : ClientId) (p : Packet) :
    (b.sendTraced links c p).1 = b.send links c p := by
  unfold sendTraced send
  simp only [withholds, List.contains_iff_mem]
  split
  · split <;> rfl
  · split
    · rfl
    · cases first : links c p with
      | ok done => rfl
      | error e =>
        cases e with
        | violation v => cases second : links c (replacement p v) <;> simp [second]
        | _ => rfl

theorem sendAllTraced_fst (links : Links) (p : Packet) (ds : List ClientId) (b : Broker) :
    (sendAllTraced links p ds b).1 = sendAll links p ds b := by
  induction ds generalizing b with
  | nil => rfl
  | cons d rest ih =>
    have first := sendTraced_fst links b d p
    simp only [sendAllTraced, sendAll, andThen, ← first, ← ih]

/-- Noting down the tries makes no difference to what a reply comes to. -/
theorem deliverTraced_fst (links : Links) (b : Broker) (r : Reply) :
    (b.deliverTraced links r).1 = b.deliverReply links r :=
  sendAllTraced_fst links r.packet _ b

/-- A client is to get packets of a transaction: it is known, and they are not withheld from it. -/
def dueTo (b : Broker) (x : String) (c : ClientId) : Bool :=
  Table.has b.clients c && !b.withholds c x

/-- What is handed to the link of a client: the packet, and the failure in its place. -/
def tries (links : Links) (p : Packet) (c : ClientId) : List (ClientId × Packet) :=
  match links c p with
  | .error (.violation v) => [(c, p), (c, replacement p v)]
  | _ => [(c, p)]

/-- What comes of trying a client. -/
def verdict (links : Links) (p : Packet) (c : ClientId) : Effect :=
  match links c p with
  | .ok _ => .deliver c p
  | .error (.violation v) =>
    match links c (replacement p v) with
    | .ok _ => .deliver c (replacement p v)
    | .error _ => .hangUp c
  | .error _ => .hangUp c

theorem verdict_eq_hangUp : verdict links p d = .hangUp c ↔ d = c ∧ Unreached links c p := by
  unfold verdict Unreached
  cases first : links d p with
  | ok done =>
    simp only [reduceCtorEq, false_iff, not_and]
    rintro rfl
    simp [first]
  | error e =>
    cases e with
    | violation v =>
      cases second : links d (replacement p v) with
      | ok done =>
        simp only [second, reduceCtorEq, false_iff, not_and]
        rintro rfl
        simp [first, second]
      | error e =>
        simp only [second, Effect.hangUp.injEq]
        refine ⟨?_, And.left⟩
        rintro rfl
        exact ⟨rfl, .inr ⟨v, e, first, second⟩⟩
    | _ =>
      simp only [Effect.hangUp.injEq]
      refine ⟨?_, And.left⟩
      rintro rfl
      exact ⟨rfl, .inl ⟨_, first, by simp⟩⟩

/-- A client is tried when packets of the transaction are due to it. -/
theorem sendTraced_tried (links : Links) (b : Broker) (c : ClientId) (p : Packet) :
    (b.send links c p).2 = (if b.dueTo p.tx c then [verdict links p c] else []) ∧
      (b.sendTraced links c p).2 = if b.dueTo p.tx c then tries links p c else [] := by
  rw [← sendTraced_fst]
  unfold sendTraced
  dsimp only
  split
  · next withheld =>
    have undue : b.dueTo p.tx c = false := by simp [dueTo, withheld]
    rw [undue]
    split <;> exact ⟨rfl, rfl⟩
  · next free =>
    split
    · next stranger =>
      have undue : b.dueTo p.tx c = false := by
        simp only [Bool.not_eq_true'] at stranger
        simp [dueTo, stranger]
      rw [undue]
      exact ⟨rfl, rfl⟩
    · next known =>
      simp only [Bool.not_eq_true', Bool.not_eq_false] at known
      have due : b.dueTo p.tx c = true := by simp [dueTo, free, known]
      have hung (b : Broker) (still : Table.has b.clients c) :
          (b.removeClient c).2 = [.hangUp c] := by rw [removeClient, if_pos still]
      rw [due]
      simp only [if_true]
      cases first : links c p with
      | ok done => simp [verdict, tries, first]
      | error e =>
        cases e with
        | violation v =>
          cases second : links c (replacement p v) with
          | ok done => simp [verdict, tries, first, second]
          | error e =>
            have still := (withhold_stays (d := c) b p).known known
            simp only [verdict, tries, first, second]
            exact ⟨hung (b.withhold c p) still, trivial⟩
        | _ => simp [verdict, tries, first, hung b known]

/-! ## One client and the others -/

/-- Sending to one client changes nothing for another one. -/
theorem send_apart (apart : d ≠ c) (links : Links) (b : Broker) (p : Packet) :
    Table.find? (b.send links d p).1.clients c = Table.find? b.clients c ∧
      ∀ y, (b.send links d p).1.withholds c y = b.withholds c y := by
  have kept : .hangUp c ∉ (b.send links d p).2 := fun gone => apart (hangUp_send gone).1.symm
  refine ⟨(send_drops links b d p).kept c kept, fun y => ?_⟩
  exact (send_other (x := y) (fun both => apart both.1) kept).withheld

theorem dueTo_send (apart : d ≠ c) (links : Links) (b : Broker) (p : Packet) :
    (b.send links d p).1.dueTo x c = b.dueTo x c := by
  obtain ⟨same, withheld⟩ := send_apart apart links b p
  rw [dueTo, dueTo, Table.has, Table.has, same, withheld]

/-- Each client is tried as if it were the only one. -/
theorem sendAllTraced_tried (links : Links) (p : Packet) (once : ds.Nodup) (b : Broker) :
    (sendAll links p ds b).2 = (ds.filter (b.dueTo p.tx)).map (verdict links p) ∧
      (sendAllTraced links p ds b).2 = (ds.filter (b.dueTo p.tx)).flatMap (tries links p) := by
  induction ds generalizing b with
  | nil => exact ⟨rfl, rfl⟩
  | cons d rest ih =>
    obtain ⟨absent, once⟩ := List.nodup_cons.1 once
    obtain ⟨effect, tried⟩ := sendTraced_tried links b d p
    have first := sendTraced_fst links b d p
    obtain ⟨effects, tries⟩ := ih once (b.send links d p).1
    have same : rest.filter ((b.send links d p).1.dueTo p.tx) = rest.filter (b.dueTo p.tx) := by
      apply List.filter_congr
      intro c member
      have apart : d ≠ c := by
        rintro rfl
        exact absent member
      exact dueTo_send apart links b p
    simp only [sendAllTraced, sendAll, andThen, List.filter_cons]
    rw [first, tried, tries, effect, effects, same]
    split <;> simp

/-! ## What is left as it was -/

/-- The table of subscriptions is what some log of interests says. -/
def Logged (b : Broker) : Prop := ∃ log, b.subscriptions = Subscriptions.replay log

theorem Logged.act (h : b.Logged) (a : Subscriptions.Action) {b' : Broker}
    (acted : b'.subscriptions = b.subscriptions.act a) : b'.Logged := by
  obtain ⟨log, same⟩ := h
  exact ⟨log ++ [a], by rw [acted, same, Subscriptions.replay_append_one]⟩

theorem Logged.removeClient (h : b.Logged) (d : ClientId) : (b.removeClient d).1.Logged := by
  unfold Broker.removeClient
  split
  · exact h.act (.remove d) rfl
  · exact h

theorem withhold_subscriptions (b : Broker) (d : ClientId) (p : Packet) :
    (b.withhold d p).subscriptions = b.subscriptions := by
  unfold withhold
  split <;> rfl

theorem Logged.withhold (h : b.Logged) (d : ClientId) (p : Packet) : (b.withhold d p).Logged := by
  rwa [Logged, withhold_subscriptions]

theorem Logged.send (h : b.Logged) (links : Links) (d : ClientId) (p : Packet) :
    (b.send links d p).1.Logged := by
  generalize outcome : b.send links d p = o
  have sent := outcome ▸ send_sent links b d p
  cases sent with
  | last | more | unknown | whole => exact h
  | replaced => exact h.withhold d p
  | lost => exact (h.withhold d p).removeClient d
  | gone => exact h.removeClient d

theorem Logged.sendAll (h : b.Logged) (links : Links) (p : Packet) (ds : List ClientId) :
    (Broker.sendAll links p ds b).1.Logged := by
  induction ds generalizing b with
  | nil => exact h
  | cons d rest ih => exact ih (h.send links d p)

theorem Logged.took (h : b.Logged) (took : Took links b machineOpen input o) : o.1.Logged := by
  cases took with
  | accepts | ignores | asks => exact h
  | closes c => exact h.removeClient c
  | @refuses _ _ c p v => exact (h.send links c _).removeClient c
  | @greets _ c p =>
    have marked : Logged { b with clients := Table.put b.clients c true } := h
    exact marked.send links c _
  | @leaves _ c p => exact (h.send links c _).removeClient c
  | @subscribes _ c p t => exact Logged.send (h.act (.subscribe t c) rfl) links c _
  | @unsubscribes _ c p q t => exact Logged.send (h.act (.unsubscribe t c) rfl) links c q
  | fails | replies => exact h.sendAll links _ _

theorem Run.logged {rounds : List Round} (run : Run rounds b) : b.Logged := by
  induction run with
  | start => exact ⟨[], rfl⟩
  | take links machineOpen input before fresh ih => exact ih.took (take_took ..)

/-- What sending a packet of a transaction to some clients leaves as it was: where the clients stand
that stay, and what else is withheld from them. -/
structure Spares (b : Broker) (ds : List ClientId) (x : String) (b' : Broker) : Prop where
  subscribers : ∀ t, b'.subscriptions.subscribers t =
    (b.subscriptions.subscribers t).filter fun c => Table.has b'.clients c
  withheld : ∀ c y, Table.has b'.clients c → c ∉ ds ∨ y ≠ x → b'.withholds c y = b.withholds c y

/-- As long as no client goes, nobody is lost from the subscribers. -/
theorem Coherent.subscribers_of_same (h : b.Coherent) {b' : Broker} (clients : b'.clients = b.clients)
    (subscriptions : b'.subscriptions = b.subscriptions) (t : Target) :
    b'.subscriptions.subscribers t =
      (b.subscriptions.subscribers t).filter fun c => Table.has b'.clients c := by
  rw [subscriptions, clients]
  refine (List.filter_eq_self.2 fun c member => ?_).symm
  rw [Table.has, h.enrolled c (Subscriptions.holds_of_mem_subscribers member)]
  rfl

theorem Coherent.subscribers_removeClient (h : b.Coherent) (logged : b.Logged) (d : ClientId)
    (t : Target) :
    (b.removeClient d).1.subscriptions.subscribers t =
      (b.subscriptions.subscribers t).filter fun c => Table.has (b.removeClient d).1.clients c := by
  unfold Broker.removeClient
  split
  · obtain ⟨log, same⟩ := logged
    have keyed : b.subscriptions.Keyed := same ▸ Subscriptions.keyed_replay log
    rw [keyed.subscribers_removeClient]
    apply List.filter_congr
    intro c member
    have known := h.enrolled c (Subscriptions.holds_of_mem_subscribers member)
    simp only [Table.has, Table.find?_erase]
    by_cases gone : d = c
    · simp [gone]
    · simp [known, gone, Ne.symm gone]
  · exact h.subscribers_of_same rfl rfl t

theorem Coherent.send_spares (h : b.Coherent) (logged : b.Logged) (links : Links) (d : ClientId)
    (p : Packet) : Spares b [d] p.tx (b.send links d p).1 where
  subscribers t := by
    cases known : Table.has b.clients d with
    | false =>
      obtain ⟨kept, -, sent⟩ := send_stranger links p known
      rw [sent]
      exact h.subscribers_of_same rfl rfl t
    | true =>
      generalize outcome : b.send links d p = o
      have sent := outcome ▸ send_sent links b d p
      cases sent with
      | last | more | unknown | whole => exact h.subscribers_of_same rfl rfl t
      | replaced =>
        exact h.subscribers_of_same (b.withhold_clients d p) (b.withhold_subscriptions d p) t
      | lost =>
        have removed := (h.withhold known p).subscribers_removeClient (logged.withhold d p) d t
        rwa [withhold_subscriptions] at removed
      | gone => exact h.subscribers_removeClient logged d t
  withheld c y stays other := by
    by_cases apart : d = c
    · subst apart
      have different : y ≠ p.tx := other.resolve_left (by simp)
      have kept : .hangUp d ∉ (b.send links d p).2 := by
        intro gone
        have absent := ((send_drops links b d p).gone d gone).2
        simp [Table.has, absent] at stays
      exact (send_other (x := y) (fun both => different both.2.symm) kept).withheld
    · exact (send_apart apart links b p).2 y

theorem Coherent.sendAll_spares (h : b.Coherent) (logged : b.Logged) (links : Links) (p : Packet)
    (ds : List ClientId) : Spares b ds p.tx (Broker.sendAll links p ds b).1 := by
  induction ds generalizing b with
  | nil => exact ⟨h.subscribers_of_same rfl rfl, fun _ _ _ _ => rfl⟩
  | cons d rest ih =>
    have first := h.send_spares logged links d p
    have later := ih (h.send links d p) (logged.send links d p)
    refine ⟨fun t => ?_, fun c y stays other => ?_⟩
    · simp only [Broker.sendAll, andThen]
      rw [later.subscribers, first.subscribers, List.filter_filter]
      apply List.filter_congr
      intro c member
      cases known : Table.has (Broker.sendAll links p rest (b.send links d p).1).1.clients c with
      | false => rfl
      | true => simp [known_of_sendAll known]
    · have reached : Table.has (Broker.sendAll links p rest (b.send links d p).1).1.clients c := stays
      have between := known_of_sendAll reached
      have apart : (c ∉ [d] ∨ y ≠ p.tx) ∧ (c ∉ rest ∨ y ≠ p.tx) := by
        simp only [List.mem_cons, not_or, List.not_mem_nil] at other ⊢
        tauto
      exact (later.withheld c y stays apart.2).trans (first.withheld c y between apart.1)

/-! ## Main result -/

/-- The clients to whom a reply is due, in the order in which they are tried. -/
def due (b : Broker) (r : Reply) : List ClientId :=
  (b.subscriptions.recipients r.origin r.target).filter (b.dueTo r.packet.tx)

/-- What a reply comes to. -/
structure FannedOut (links : Links) (b : Broker) (r : Reply) : Prop where
  /-- It is due to its origin and to the other subscribers of its target, in the order in which they
  subscribed, as far as they are known and the transaction is not withheld from them. -/
  due : b.due r = (r.origin :: (r.target.elim [] b.subscriptions.subscribers).filter
    (· ≠ r.origin)).filter fun c => Table.has b.clients c && !b.withholds c r.packet.tx
  once : (b.due r).Nodup
  /-- Noting down the tries makes no difference. -/
  traced : (b.deliverTraced links r).1 = b.deliverReply links r
  /-- Each of them is tried once with the reply, and with the failure in its place if the reply is too
  large, and nobody else is. -/
  tried : (b.deliverTraced links r).2 = (b.due r).flatMap (tries links r.packet)
  /-- What comes of it for a client is up to the link of that client. -/
  effects : (b.deliverReply links r).2 = (b.due r).map (verdict links r.packet)
  /-- Those to whom neither can be delivered are removed, and nobody else is. -/
  removed : ∀ c, Table.has (b.deliverReply links r).1.clients c ↔
    Table.has b.clients c ∧ ¬ (c ∈ b.due r ∧ Unreached links c r.packet)
  /-- Whoever stays is connected as before, -/
  connected : ∀ c, Table.has (b.deliverReply links r).1.clients c →
    Table.find? (b.deliverReply links r).1.clients c = Table.find? b.clients c
  /-- stands where it stood among those that stay, -/
  subscribers : ∀ t, (b.deliverReply links r).1.subscriptions.subscribers t =
    (b.subscriptions.subscribers t).filter
      fun c => Table.has (b.deliverReply links r).1.clients c
  /-- and the same other transactions are withheld from it. -/
  withheld : ∀ c y, Table.has (b.deliverReply links r).1.clients c → y ≠ r.packet.tx →
    ((c, y) ∈ (b.deliverReply links r).1.undeliverable ↔ (c, y) ∈ b.undeliverable)

/-- In every state that the broker comes into, for every reply and whatever its links do. -/
theorem fanned_out {rounds : List Round} (run : Run rounds b) (links : Links) (r : Reply) :
    FannedOut links b r := by
  have coherent := run.coherent
  have once := coherent.once.recipients r.origin r.target
  obtain ⟨effects, tried⟩ := sendAllTraced_tried links r.packet once b
  have spares := coherent.sendAll_spares run.logged links r.packet
    (b.subscriptions.recipients r.origin r.target)
  have drops := sendAll_drops links r.packet (b.subscriptions.recipients r.origin r.target) b
  have hung (c : ClientId) : .hangUp c ∈ (b.deliverReply links r).2 ↔
      c ∈ b.due r ∧ Unreached links c r.packet := by
    rw [deliverReply, effects, List.mem_map]
    constructor
    · rintro ⟨d, member, gone⟩
      obtain ⟨rfl, unreached⟩ := verdict_eq_hangUp.1 gone
      exact ⟨member, unreached⟩
    · rintro ⟨member, unreached⟩
      exact ⟨c, member, verdict_eq_hangUp.2 ⟨rfl, unreached⟩⟩
  have stayed (c : ClientId) (stays : Table.has (b.deliverReply links r).1.clients c) :
      .hangUp c ∉ (b.deliverReply links r).2 := by
    intro gone
    have absent := (drops.gone c gone).2
    simp only [deliverReply, Table.has, absent] at stays
    cases stays
  constructor
  case due =>
    unfold Broker.due
    cases r.target <;> rfl
  case once => exact once.filter _
  case traced => exact deliverTraced_fst links b r
  case tried => exact tried
  case effects => exact effects
  case removed =>
    intro c
    rw [← hung c]
    constructor
    · intro stays
      have kept := stayed c stays
      refine ⟨?_, kept⟩
      rwa [deliverReply, Table.has, drops.kept c kept] at stays
    · rintro ⟨known, kept⟩
      rwa [deliverReply, Table.has, drops.kept c kept]
  case connected => exact fun c stays => drops.kept c (stayed c stays)
  case subscribers => exact spares.subscribers
  case withheld =>
    intro c y stays other
    have same := spares.withheld c y stays (.inr other)
    simpa [withholds, deliverReply] using Bool.eq_iff_iff.1 same

/-- Links of which one is closed, one takes nothing but last replies, and the others take all. -/
def unevenLinks : Links := fun c p =>
  if c = 1 then .error .closed
  else if c = 2 ∧ !p.isTerminal then .error (.violation (.tooLarge "frame" 20000000 Frame.limit))
  else .ok ()

/-- Three clients subscribe to one function, in another order than they came. -/
def enrolment : List (Links × Bool × Input) :=
  [0, 1, 2].flatMap (fun c =>
    [(unevenLinks, true, .event (.accepted c)),
      (fun _ _ => .ok (), true, .event (.packet c (.connect "a")))]) ++
  [1, 0, 2].map fun c => (fun _ _ => .ok (), true, .event (.packet c (.subscribe "b" (.function "f"))))

/-- An output of a function that its origin is subscribed to as well, and one whose origin is gone. -/
theorem fanned_out_enrolment :
    ∃ rounds b, Run rounds b ∧
      let own : Reply := ⟨0, 0, some (.function "f"), .output "t" 0 false .null⟩
      let orphaned : Reply := ⟨1, 3, some (.function "f"), .output "u" 0 false .null⟩
      (b.due own = [0, 1, 2] ∧ b.due orphaned = [1, 0, 2] ∧
        (b.deliverReply unevenLinks own).2 = [.deliver 0 own.packet, .hangUp 1,
          .deliver 2 (.outputFault "t" 0 (.violation (.tooLarge "frame" 20000000 Frame.limit)))]) ∧
      FannedOut unevenLinks b own ∧ FannedOut unevenLinks b orphaned := by
  have run := Run.start.takeAll enrolment (by decide)
  exact ⟨_, _, run, ⟨rfl, rfl, rfl⟩, fanned_out run unevenLinks _, fanned_out run unevenLinks _⟩

end Patchbay.Broker
