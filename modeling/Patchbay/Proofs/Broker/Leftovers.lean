import Patchbay.Proofs.Broker.Courses
import Patchbay.Proofs.Broker.Transactions

/-!
# What stays withheld

A stream is withheld from a client up to its last reply, but a client that unsubscribes in the
meantime is not offered that reply. The entry then stays when the transaction has ended, until the
client leaves. Nothing else stays: an entry of a transaction that has ended is always that of a client
that was offered a reply that is too large and not the last one.
-/

namespace Patchbay

namespace Broker

variable {c d : ClientId} {x : String} {b : Broker} {links : Links} {p : Packet} {input : Input}
  {key : ClientId × String}

/-- A packet that is sent to two clients. -/
theorem sendAll_pair {b' b'' : Broker} {done more : List Effect}
    (first : b.send links c p = (b', done)) (second : b'.send links d p = (b'', more)) :
    sendAll links p [c, d] b = (b'', done ++ more) := by
  simp only [sendAll, andThen, first, second, List.append_nil]

/-! ## What becomes withheld -/

theorem removeClient_undeliverable (member : key ∈ (b.removeClient d).1.undeliverable) :
    key ∈ b.undeliverable := by
  unfold removeClient at member
  split at member
  · exact List.mem_of_mem_filter member
  · exact member

theorem withhold_undeliverable (member : key ∈ (b.withhold d p).undeliverable) :
    key ∈ b.undeliverable ∨ opensStream p ∧ key.2 = p.tx := by
  unfold withhold at member
  split at member
  · next opens =>
    rcases List.mem_cons.1 member with rfl | before
    · exact .inr ⟨opens, rfl⟩
    · exact .inl before
  · exact .inl member

/-- Only a reply with more to follow makes anything withheld. -/
theorem send_undeliverable (member : key ∈ (b.send links d p).1.undeliverable) :
    key ∈ b.undeliverable ∨ opensStream p ∧ key.2 = p.tx := by
  generalize outcome : b.send links d p = o at member
  have sent := outcome ▸ send_sent links b d p
  cases sent with
  | last => exact .inl (List.mem_of_mem_filter member)
  | more | unknown | whole => exact .inl member
  | replaced => exact withhold_undeliverable member
  | lost => exact withhold_undeliverable (removeClient_undeliverable member)
  | gone => exact .inl (removeClient_undeliverable member)

theorem sendAll_undeliverable {ds : List ClientId}
    (member : key ∈ (sendAll links p ds b).1.undeliverable) :
    key ∈ b.undeliverable ∨ opensStream p ∧ key.2 = p.tx := by
  induction ds generalizing b with
  | nil => exact .inl member
  | cons d rest ih =>
    rcases ih member with before | opened
    · exact send_undeliverable before
    · exact .inr opened

/-- Answers of the broker's own make nothing withheld. -/
theorem send_answer_undeliverable (type : p.type = .respond)
    (member : key ∈ (b.send links d p).1.undeliverable) : key ∈ b.undeliverable := by
  refine (send_undeliverable member).resolve_right ?_
  rintro ⟨opens, -⟩
  simp [(opensStream_iff.1 opens).1] at type

theorem take_undeliverable (machineOpen : Bool) (input : Input)
    (member : key ∈ (b.take links machineOpen input).1.undeliverable) :
    key ∈ b.undeliverable ∨
      ∃ r, input = .reply r ∧ opensStream r.packet ∧ key.2 = r.packet.tx := by
  have took := take_took links machineOpen b input
  generalize b.take links machineOpen input = o at member took
  cases took with
  | accepts | ignores | asks => exact .inl member
  | closes => exact .inl (removeClient_undeliverable member)
  | refuses | leaves =>
    exact .inl (send_answer_undeliverable rfl (removeClient_undeliverable member))
  | greets | subscribes =>
    have before := send_answer_undeliverable rfl member
    exact .inl before
  | unsubscribes _ _ _ answer =>
    have type : ∀ {p q t}, UnsubscribeAnswer p t q → q.type = .respond := by
      rintro p q t (_ | _) <;> rfl
    have before := send_answer_undeliverable (type answer) member
    exact .inl before
  | @fails c p r =>
    refine .inl ((sendAll_undeliverable member).resolve_right ?_)
    rintro ⟨opens, -⟩
    cases r <;> simp [unavailable, opensStream, Packet.respondFault, Packet.bare] at opens
  | replies r =>
    exact (sendAll_undeliverable member).imp_right fun opened => ⟨r, rfl, opened⟩

end Broker

namespace Traffic

open Broker (Final TooLarge opensStream offeredTo Stuck passAll)

variable {c d : ClientId} {x : String} {w k : Traffic} {sockets : ClientId → Socket}

/-- The machine has still to answer the execute under an id. -/
def InFlight (x : String) (w : Traffic) : Prop := ∃ r ∈ w.pending, r.runs x

/-- The last reply to the execute under an id was sent on. -/
def Ended (x : String) (w : Traffic) : Prop :=
  ∃ c r, (c, r) ∈ w.offers ∧ r.packet.tx = x ∧ Final r.packet

/-- A client was offered a reply that is too large, with more to follow, and not the last one. -/
structure Deserted (c : ClientId) (x : String) (w : Traffic) : Prop where
  opened : ∃ p ∈ offeredTo c x w.offers, TooLarge p ∧ opensStream p
  left : ∀ p ∈ offeredTo c x w.offers, ¬ Final p

/-! ## Courses as runs of the broker -/

/-- A step takes an event or a reply. -/
theorem Step.shape (step : Step sockets w k) :
    (∃ machineOpen e, k = w.event sockets machineOpen e) ∨
      ∃ pending r, k = { w with pending := pending }.reply sockets r := by
  cases step with
  | event machineOpen e => exact .inl ⟨machineOpen, e, rfl⟩
  | more => exact .inr ⟨w.pending, _, rfl⟩
  | last => exact .inr ⟨_, _, rfl⟩

theorem Step.effects (step : Step sockets w k) : w.effects <+: k.effects := by
  rcases step.shape with ⟨machineOpen, e, rfl⟩ | ⟨pending, r, rfl⟩
  · exact List.prefix_append ..
  · exact List.prefix_append ..

namespace Course

/-- A course is a run of the broker over sockets. -/
theorem run (course : Course w) : ∃ rounds, Broker.Run rounds w.broker ∧
    w.effects = rounds.flatMap (·.effects) ∧
    ∀ c, .accepted c ∈ w.heard ↔ ∃ round ∈ rounds, round.input = .event (.accepted c) := by
  induction course with
  | start => exact ⟨[], .start, rfl, by simp [Traffic.start]⟩
  | @step sockets w k before step fresh ih =>
    obtain ⟨rounds, run, effects, heard⟩ := ih
    rcases step.shape with ⟨machineOpen, e, rfl⟩ | ⟨pending, r, rfl⟩
    · refine ⟨_, run.take (links sockets) machineOpen (.event e) ?_, ?_, fun c => ?_⟩
      · rintro c accepts round member same
        cases accepts
        exact fresh c rfl ((heard c).2 ⟨round, member, same⟩)
      · simp [event, effects, Broker.take]
      · simp [event, heard, or_and_right, exists_or, eq_comm]
    · refine ⟨_, run.take (links sockets) true (.reply r) ?_, ?_, fun c => ?_⟩
      · rintro c ⟨⟩
      · simp [Traffic.reply, effects, Broker.take]
      · simp [Traffic.reply, heard, or_and_right, exists_or]

/-- The clients that are known were accepted and not hung up on. -/
theorem known (course : Course w) (known : Table.has w.broker.clients c) :
    .accepted c ∈ w.heard ∧ .hangUp c ∉ w.effects := by
  obtain ⟨rounds, run, effects, heard⟩ := course.run
  obtain ⟨accepted, kept⟩ := run.known_iff.1 known
  refine ⟨(heard c).2 accepted, ?_⟩
  rw [effects, List.mem_flatMap]
  rintro ⟨round, member, gone⟩
  exact kept round member gone

theorem coherent (course : Course w) : w.broker.Coherent := by
  obtain ⟨rounds, run, -⟩ := course.run
  exact run.coherent

/-- What is withheld was opened by a reply. -/
theorem opened (course : Course w) {key : ClientId × String}
    (member : key ∈ w.broker.undeliverable) :
    ∃ c r, (c, r) ∈ w.offers ∧ r.packet.tx = key.2 ∧ opensStream r.packet := by
  induction course with
  | start => cases member
  | @step sockets w k before step fresh ih =>
    rcases step.shape with ⟨machineOpen, e, rfl⟩ | ⟨pending, r, rfl⟩
    · rcases Broker.take_undeliverable machineOpen (.event e) member with old | ⟨r, same, -⟩
      · obtain ⟨c, r, offered, rest⟩ := ih old
        exact ⟨c, r, List.mem_append_left _ offered, rest⟩
      · cases same
    · rcases Broker.take_undeliverable true (.reply r) member with
        old | ⟨s, same, opens, tx⟩
      · obtain ⟨c, r, offered, rest⟩ := ih old
        exact ⟨c, r, List.mem_append_left _ offered, rest⟩
      · cases same
        exact ⟨_, _, List.mem_append_right _ (w.broker.origin_mem_offers r), tx.symm, opens⟩

/-- What a client is offered has passed, as long as it is not hung up on. -/
theorem kept (course : Course w) (one : OneExecute c x w) (kept : .hangUp c ∉ w.effects) :
    Kept c x w := by
  induction course with
  | start => exact kept_start c x
  | step before step fresh ih =>
    have earlier := ih (one.before step) fun gone => kept (step.effects.subset gone)
    exact earlier.step step one kept

end Course

/-! ## Transactions that have ended -/

section

variable (course : Course w) (unique : UniqueIds w.heard)

/-- The execute of a transaction that has begun is the only packet under its id, but for cancels. -/
theorem UniqueIds.oneExecute (unique : UniqueIds w.heard) {p : Packet} (started : .packet d p ∈ w.heard)
    (type : p.type = .execute) (tx : p.tx = x) (c : ClientId) : OneExecute c x w where
  kinds q member same := by
    rcases (unique.shared started member (tx.trans same.symm)).2 with rfl | cancels | cancels
    · exact .inl type
    · simp [type] at cancels
    · exact .inr cancels
  once := by
    refine le_trans (List.countP_mono_left fun e _ executes => ?_) (unique.starts_le x)
    cases e with
    | packet d q =>
      simp only [isExecute, Bool.and_eq_true, decide_eq_true_eq] at executes
      simp [starts, executes.1.2, executes.2]
    | _ => cases executes

include course unique

theorem Ended.not_inFlight (ended : Ended x w) : ¬ InFlight x w := by
  rintro ⟨r, asked, runs⟩
  obtain ⟨c, s, offered, tx, final⟩ := ended
  exact (course.books unique).not_final unique asked runs offered tx final

/-- A stream stays withheld exactly when its client was not offered the end of it. -/
theorem stuck_iff_deserted (ended : Ended x w) :
    Stuck (offeredTo c x w.offers) ↔ Deserted c x w := by
  have books := course.books unique
  have offered {p : Packet} (member : p ∈ offeredTo c x w.offers) :
      ∃ r, (c, r) ∈ w.offers ∧ r.packet = p ∧ p.tx = x := by
    obtain ⟨⟨d, r⟩, there, some⟩ := List.mem_filterMap.1 member
    dsimp only at some
    split at some
    · next mine =>
      obtain ⟨rfl, tx⟩ := mine
      cases some
      exact ⟨r, there, rfl, tx⟩
    · cases some
  have ordered : (offeredTo c x w.offers).Pairwise fun p q => Final p → ¬ opensStream q := by
    refine books.ordered.filterMap _ ?_
    rintro ⟨d, r⟩ ⟨d', s⟩ later p first q second
    dsimp only at first second
    split at first <;> split at second <;> simp_all
  constructor
  · rintro ⟨front, p, back, whole, large, opens, goes⟩
    rw [whole] at ordered
    obtain ⟨-, -, before⟩ := List.pairwise_append.1 ordered
    refine ⟨⟨p, by simp [whole], large, opens⟩, fun q member final => ?_⟩
    rw [whole] at member
    rcases List.mem_append.1 member with early | late
    · exact before q early p List.mem_cons_self final opens
    · rcases List.mem_cons.1 late with rfl | behind
      · exact Broker.not_final_of_opensStream opens final
      · exact absurd final.2 (by simp [goes q behind])
  · rintro ⟨⟨p, member, large, opens⟩, left⟩
    obtain ⟨front, back, whole⟩ := List.append_of_mem member
    refine ⟨front, p, back, whole, large, opens, fun q behind => ?_⟩
    have there : q ∈ offeredTo c x w.offers := by simp [whole, behind]
    obtain ⟨r, sent, rfl, tx⟩ := offered there
    -- An answer goes to the client of the transaction only, which was offered the last reply.
    have execute : r.packet.type = .respondExecute := by
      refine (books.private_ c r sent).resolve_right fun mine => ?_
      obtain ⟨d, s, last, same, final⟩ := ended
      obtain ⟨p, asked, asks, -⟩ := books.answered c r sent
      obtain ⟨q, started, starts, -⟩ := books.answered d s last
      have owner := (unique.shared asked started (by rw [asks, starts, tx, same])).1
      refine left s.packet ?_ final
      refine List.mem_filterMap.2 ⟨_, books.origin d s last, ?_⟩
      simp [same, ← owner, mine]
    have goes := left _ there
    simpa [Final, execute] using goes

/-- What is withheld from a client of a transaction that has ended. -/
theorem mem_undeliverable_iff (ended : Ended x w) :
    (c, x) ∈ w.broker.undeliverable ↔ Table.has w.broker.clients c ∧ Deserted c x w := by
  have started : ∃ d p, .packet d p ∈ w.heard ∧ p.type = .execute ∧ p.tx = x := by
    obtain ⟨d, s, last, same, final⟩ := ended
    obtain ⟨p, packet, tx, type⟩ := (course.books unique).answered d s last
    exact ⟨_, p, packet, type final.1, tx.trans same⟩
  obtain ⟨d, p, packet, type, tx⟩ := started
  have withheld (known : Table.has w.broker.clients c) :
      (c, x) ∈ w.broker.undeliverable ↔ Deserted c x w := by
    have kept := course.kept (unique.oneExecute packet type tx c) (course.known known).2
    have stuck : w.broker.withholds c x = true ↔ Stuck (offeredTo c x w.offers) := by
      rw [kept.withheld, Broker.passAll_withholds_iff]
      simp
    rw [← stuck_iff_deserted course unique ended, ← stuck]
    simp [Broker.withholds]
  constructor
  · intro member
    have known := course.coherent.owned _ member
    exact ⟨known, (withheld known).1 member⟩
  · rintro ⟨known, deserted⟩
    exact (withheld known).2 deserted

/-- What is withheld is part of a transaction that is in flight or has ended. -/
theorem inFlight_or_ended {key : ClientId × String} (member : key ∈ w.broker.undeliverable) :
    InFlight key.2 w ∨ Ended key.2 w := by
  obtain ⟨c, r, offered, tx, opens⟩ := course.opened member
  rw [← tx]
  exact (course.books unique).begun c r offered (Broker.opensStream_iff.1 opens).1

/-! ## Main result -/

/-- When every id stands for one transaction, what is withheld of a transaction that has ended is
what clients were deserted in that are still there. So everything withheld is part of a transaction
in flight exactly when nobody is there who was offered a reply that is too large and, having left the
subscribers, not the end of its stream. -/
theorem withheld_iff_deserted :
    (∀ x, Ended x w → ∀ c, (c, x) ∈ w.broker.undeliverable ↔
      Table.has w.broker.clients c ∧ Deserted c x w) ∧
    ((∀ key ∈ w.broker.undeliverable, InFlight key.2 w) ↔
      ∀ c x, Ended x w → Table.has w.broker.clients c → ¬ Deserted c x w) := by
  refine ⟨fun x ended c => mem_undeliverable_iff course unique ended, ?_⟩
  constructor
  · intro flying c x ended known deserted
    have member := (mem_undeliverable_iff course unique ended).2 ⟨known, deserted⟩
    exact ended.not_inFlight course unique (flying _ member)
  · rintro clear ⟨c, x⟩ member
    refine (inFlight_or_ended course unique member).resolve_right fun ended => ?_
    obtain ⟨known, deserted⟩ := (mem_undeliverable_iff course unique ended).1 member
    exact clear c x ended known deserted

end

/-! ## Two clients -/

theorem Course.hear (course : Course w) {e : Event}
    (order : ∀ d p, e = .packet d p → .accepted d ∈ w.heard)
    (fresh : ∀ d, e = .accepted d → .accepted d ∉ w.heard) :
    Course (w.event everyone true e) := by
  refine course.step (.event true e order) fun d same => fresh d ?_
  exact List.singleton_inj.1 (List.append_cancel_left same)

theorem Course.settle (course : Course w) (others : List Request) (r : Request) (q : Packet)
    (asked : w.pending = others ++ [r]) (settles : r.Settles q) : Course (w.settle others r q) := by
  have step : Step everyone w _ := .last 1 asked settles
  rw [List.append_nil] at step
  exact course.step step fun d same => by simp [Traffic.settle, Traffic.reply] at same

/-- Two clients connect, the second subscribes to a function, the first calls it. -/
def joined : Traffic :=
  [.accepted 0, .accepted 1, .packet 0 (.connect "k"), .packet 1 (.connect "l"),
    .packet 1 (.subscribe "s" (.function "f")), .packet 0 call].foldl (event everyone true) start

/-- The first reply was too large for both. -/
def watched : Traffic where
  broker := ⟨[(0, true), (1, true)], ⟨[(.function "f", [1])]⟩, [(1, "t"), (0, "t")]⟩
  pending := [question]
  heard := joined.heard
  offers := [(0, ⟨0, 0, some (.function "f"), flood⟩), (1, ⟨0, 0, some (.function "f"), flood⟩)]
  effects := joined.effects ++ [.deliver 0 failure, .deliver 1 failure]

/-- The second client unsubscribes before the stream ends. -/
def parted : Traffic :=
  (watched.event everyone true (.packet 1 (.unsubscribe "u" (.function "f")))).settle []
    question final

/-- The second client unsubscribes and comes back before the stream ends. -/
def rejoined : Traffic :=
  ((watched.event everyone true (.packet 1 (.unsubscribe "u" (.function "f")))).event everyone true
    (.packet 1 (.subscribe "v" (.function "f")))).settle [] question final

theorem reply_flood_watched :
    joined.reply everyone ⟨0, question.origin, question.target?, flood⟩ = watched := by
  have recipients : joined.broker.subscriptions.recipients 0 (some (.function "f")) = [0, 1] := rfl
  have first : joined.broker.send (links everyone) 0 flood =
      (⟨[(0, true), (1, true)], ⟨[(.function "f", [1])]⟩, [(0, "t")]⟩, [.deliver 0 failure]) :=
    send_flood 0 rfl rfl
  have delivered := Broker.sendAll_pair first (send_flood 1 rfl rfl)
  rw [← recipients] at delivered
  have sent : joined.broker.deliverReply (links everyone)
      ⟨0, question.origin, question.target?, flood⟩ = _ := delivered
  rw [reply, sent]
  rfl

theorem course_watched : Course watched := by
  have course : Course joined := by
    have none : Course start := .start
    have first := none.hear (e := .accepted 0) (by simp) (by simp [start])
    have second := first.hear (e := .accepted 1) (by simp) (by simp [event, start])
    have third := second.hear (e := .packet 0 (.connect "k")) (by simp [event]) (by simp)
    have fourth := third.hear (e := .packet 1 (.connect "l")) (by simp [event]) (by simp)
    have fifth := fourth.hear (e := .packet 1 (.subscribe "s" (.function "f")))
      (by simp [event]) (by simp)
    exact fifth.hear (e := .packet 0 call) (by simp [event]) (by simp)
  have asked : question ∈ joined.pending := List.mem_singleton_self question
  have step : Step everyone joined watched := reply_flood_watched ▸ .more 0 asked ⟨rfl, rfl, rfl⟩
  exact course.step step fun d same => by simp [watched] at same

/-- When the second client is back in time, nobody that is there is deserted. -/
theorem withheld_iff_deserted_rejoined :
    Course rejoined ∧ UniqueIds rejoined.heard ∧ Ended "t" rejoined ∧
      ∀ c, Table.has rejoined.broker.clients c → ¬ Deserted c "t" rejoined := by
  have course : Course rejoined := by
    have left := course_watched.hear (e := .packet 1 (.unsubscribe "u" (.function "f")))
      (by simp [watched, joined, event]) (by simp)
    have back := left.hear (e := .packet 1 (.subscribe "v" (.function "f")))
      (by simp [watched, joined, event]) (by simp)
    exact back.settle [] question final rfl ⟨rfl, rfl, rfl⟩
  have unique : UniqueIds rejoined.heard := by
    have heard : rejoined.heard = joined.heard ++ [.packet 1 (.unsubscribe "u" (.function "f")),
      .packet 1 (.subscribe "v" (.function "f"))] := rfl
    simp [UniqueIds, heard, joined, event, start, Apart, Packet.connect, Packet.subscribe,
      Packet.unsubscribe, Packet.routed, Packet.bare, call, Packet.callFunction, Packet.execute]
  have ended : Ended "t" rejoined := by
    have offers : rejoined.offers = watched.offers ++
      [(0, ⟨1, 0, some (.function "f"), final⟩), (1, ⟨1, 0, some (.function "f"), final⟩)] := rfl
    exact ⟨0, ⟨1, 0, some (.function "f"), final⟩, by simp [offers], rfl, rfl, rfl⟩
  have clear : rejoined.broker.undeliverable = [] := rfl
  refine ⟨course, unique, ended, fun c known deserted => ?_⟩
  have member := ((withheld_iff_deserted course unique).1 "t" ended c).2 ⟨known, deserted⟩
  rw [clear] at member
  cases member

/-- A client that unsubscribes in the middle of a stream that is withheld keeps the entry. -/
theorem not_cleared_parted :
    Course parted ∧ UniqueIds parted.heard ∧ Ended "t" parted ∧ parted.pending = [] ∧
      parted.broker.undeliverable = [(1, "t")] := by
  have course : Course parted := by
    have left := course_watched.hear (e := .packet 1 (.unsubscribe "u" (.function "f")))
      (by simp [watched, joined, event]) (by simp)
    exact left.settle [] question final rfl ⟨rfl, rfl, rfl⟩
  have unique : UniqueIds parted.heard := by
    have heard : parted.heard =
      joined.heard ++ [.packet 1 (.unsubscribe "u" (.function "f"))] := rfl
    simp [UniqueIds, heard, joined, event, start, Apart, Packet.connect, Packet.subscribe,
      Packet.unsubscribe, Packet.routed, Packet.bare, call, Packet.callFunction, Packet.execute]
  have ended : Ended "t" parted := by
    have offers : parted.offers = watched.offers ++ [(0, ⟨1, 0, some (.function "f"), final⟩)] :=
      rfl
    exact ⟨0, ⟨1, 0, some (.function "f"), final⟩, by simp [offers], rfl, rfl, rfl⟩
  exact ⟨course, unique, ended, rfl, rfl⟩

end Traffic

end Patchbay
