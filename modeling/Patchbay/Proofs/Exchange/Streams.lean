import Patchbay.Proofs.Exchange.Clients

/-!
# Streams through an exchange

From the machine through the broker and a connection to a client: the outputs that a client gets of
an execute are the ones that the machine sent, in their order, each once. That is so for the client
that asked, and for everyone who is subscribed to the target while the broker passes them on.
-/

namespace Patchbay

variable {σ : Type}

/-- Whether a packet is an output of a transaction. -/
def Packet.isOutputOf (x : String) (p : Packet) : Bool := p.type = .respondExecute && p.tx = x

/-- The outputs of a transaction. -/
def outputsOf (x : String) (ps : List Packet) : List Packet := ps.filter (Packet.isOutputOf x)

@[simp] theorem outputsOf_append (x : String) (ps qs : List Packet) :
    outputsOf x (ps ++ qs) = outputsOf x ps ++ outputsOf x qs := List.filter_append ..

theorem Packet.isOutputOf_iff {x : String} {p : Packet} :
    p.isOutputOf x = true ↔ p.type = .respondExecute ∧ p.tx = x := by
  simp [isOutputOf]

/-- Whether a request is an execute of a transaction. -/
def Request.executes (x : String) : Request → Bool
  | .execute _ _ p => p.tx = x
  | .cancel _ _ => false

/-- The outputs of a transaction that the machine has sent. -/
def emittedOf (x : String) (sights : List Sight) : List Packet :=
  outputsOf x ((emissions sights).map Reply.packet)

/-- Packets that are numbered from zero, of which only the last may end its transaction. -/
structure IsStream (ps : List Packet) : Prop where
  numbered : ∀ (i : Nat) (p : Packet), ps[i]? = some p → p.sequence = some (UInt32.ofNat i)
  last : ∀ (i : Nat) (p : Packet), ps[i]? = some p → i + 1 < ps.length → p.isTerminal = false

/-- Where at most one element has a property, it stands at one place. -/
theorem place_unique {α : Type} {q : α → Bool} {l : List α} (once : l.countP q ≤ 1) {i j : Nat}
    {a b : α} (first : l[i]? = some a) (second : l[j]? = some b) (here : q a = true)
    (there : q b = true) : i = j := by
  induction l generalizing i j with
  | nil => cases first
  | cons e rest ih =>
    rw [List.countP_cons] at once
    -- where the head has the property, nothing behind it has
    have alone {k : Nat} {d : α} (found : rest[k]? = some d) (has : q d = true) : q e = false := by
      have more : 0 < rest.countP q := List.countP_pos_iff.2 ⟨d, List.mem_of_getElem? found, has⟩
      cases head : q e with
      | false => rfl
      | true =>
        rw [head, if_pos rfl] at once
        omega
    cases i with
    | zero =>
      cases j with
      | zero => rfl
      | succ j =>
        cases first
        rw [alone second there] at here
        cases here
    | succ i =>
      cases j with
      | zero =>
        cases second
        rw [alone first here] at there
        cases there
      | succ j => exact congrArg (· + 1) (ih (by omega) first second)

namespace Exchange

variable {x y : Exchange σ} {c : ClientId} {tx : String} {sights new : List Sight}

/-! ## What the machine sends -/

/-- An output of a transaction answers its only execute. -/
theorem Run.output_source (run : Run sights x)
    (once : (asksOf sights).countP (Request.executes tx) ≤ 1) {r : Reply}
    (sent : r ∈ emissions sights) (output : r.packet.isOutputOf tx = true) {origin : ClientId}
    {t : Target} {p : Packet} {n : Nat} (asked : (asksOf sights)[n]? = some (.execute origin t p))
    (mine : p.tx = tx) : r.serial = n ∧ r.origin = origin ∧ r.target = some t := by
  obtain ⟨type, tag⟩ := Packet.isOutputOf_iff.1 output
  obtain ⟨g, q, took, target, same, -⟩ := run.execute_of_output sent type
  have place : (asksOf sights)[r.serial]? = some (.execute r.origin g q) := by
    have inside := (List.getElem?_eq_some_iff.1 took).1
    rw [run.accounts.asked, List.getElem?_append_left inside]
    exact took
  have number : r.serial = n :=
    place_unique once place asked (by simp [Request.executes, ← same, tag])
      (by simp [Request.executes, mine])
  rw [number, asked] at place
  cases place
  exact ⟨number, rfl, target⟩

/-- The outputs of a transaction with one execute are a stream. -/
theorem Run.emitted_isStream (run : Run sights x)
    (once : (asksOf sights).countP (Request.executes tx) ≤ 1) : IsStream (emittedOf tx sights) := by
  have split : emittedOf tx sights =
      ((emissions sights).filter fun r => r.packet.isOutputOf tx).map Reply.packet :=
    List.filter_map ..
  rw [split]
  cases outputs : (emissions sights).filter fun r => r.packet.isOutputOf tx with
  | nil => exact ⟨by simp, by simp⟩
  | cons r rest =>
    -- all of them answer the execute that the first one answers
    have member : r ∈ (emissions sights).filter fun r => r.packet.isOutputOf tx := by simp [outputs]
    obtain ⟨sent, output⟩ := List.mem_filter.1 member
    obtain ⟨type, tag⟩ := Packet.isOutputOf_iff.1 output
    obtain ⟨t, p, took, -, same, -⟩ := run.execute_of_output sent type
    have asked : (asksOf sights)[r.serial]? = some (.execute r.origin t p) := by
      have inside := (List.getElem?_eq_some_iff.1 took).1
      rw [run.accounts.asked, List.getElem?_append_left inside]
      exact took
    obtain ⟨m, history, replies⟩ := run.history
    have paid := history.orderly.sound.spent r.serial r.origin t p took
    have answers : (emissions sights).filter (fun r => r.packet.isOutputOf tx) =
        Ledger.repliesTo (emissions sights) r.serial := by
      refine List.filter_congr fun s there => ?_
      rw [Bool.eq_iff_iff, decide_eq_true_iff]
      constructor
      · intro output
        exact (run.output_source once there output asked (same.symm.trans tag)).1
      · intro serial
        have mine : s ∈ Ledger.repliesTo m.replies r.serial := by
          simp [Ledger.repliesTo, replies, there, serial]
        obtain ⟨i, place⟩ := List.getElem?_of_mem mine
        obtain ⟨⟨-, -, tx, type⟩, -⟩ := paid.spec place
        exact Packet.isOutputOf_iff.2 ⟨type, tx.trans (same.symm.trans tag)⟩
    rw [← outputs, answers]
    change IsStream ((Ledger.repliesTo (emissions sights) r.serial).map Reply.packet)
    rw [← replies]
    refine ⟨fun i q here => ?_, fun i q here before => ?_⟩
    · rw [List.getElem?_map] at here
      obtain ⟨s, place, rfl⟩ := Option.map_eq_some_iff.1 here
      obtain ⟨-, number, -⟩ := paid.spec place
      rw [number]
      exact congrArg some (UInt32.zero_add _)
    · rw [List.getElem?_map] at here
      obtain ⟨s, place, rfl⟩ := Option.map_eq_some_iff.1 here
      rw [List.length_map] at before
      exact (paid.spec place).2.2 before

/-! ## What the broker delivers -/

/-- What a turn delivers of a transaction to a client that is among the recipients of its outputs. -/
theorem Turned.delivers (h : Wired sights x) (turned : Turned x new y) (kept : x.Keeps c)
    (recipient : ∀ b r done, .answered b r done ∈ new → r.packet.isOutputOf tx = true →
      c ∈ b.subscriptions.recipients r.origin r.target ∧ Table.has b.clients c) :
    outputsOf tx (sentTo c new) = outputsOf tx ((passedOn new).map Reply.packet) := by
  cases turned with
  | attach | idle => rfl
  | link | work => simp [sentTo, packetsTo]
  | @take r rest m popped moved =>
    have passed : passedOn (.took r :: m.replies.map .emitted) = [] := passedOn_emitted m.replies
    simp [sentTo, Sight.done, packetsTo, passed]
  | @hear b e rest broker popped =>
    have sent : sentTo c [.heard b e (b.handle x.links true e).2] =
        packetsTo c (b.handle x.links true e).2 := by simp [sentTo, Sight.done]
    rw [sent]
    refine List.filter_eq_nil_iff.2 fun p delivered => ?_
    have type := Broker.type_of_handle (mem_packetsTo.1 delivered)
    simp [Packet.isOutputOf, type]
  | @answer b r rest broker popped =>
    obtain ⟨w, found, keeps⟩ := kept
    obtain ⟨_, same, plain⟩ := h.broker
    cases broker.symm.trans same
    obtain ⟨-, delivered⟩ := plain.deliverReply_open h.carries (h.linked found keeps r.packet)
    have sent : sentTo c [.answered b r (b.deliverReply x.links r).2] =
        packetsTo c (b.deliverReply x.links r).2 := by simp [sentTo, Sight.done]
    have passed : passedOn [.answered b r (b.deliverReply x.links r).2] = [r] := rfl
    rw [sent, delivered, passed]
    cases output : r.packet.isOutputOf tx with
    | true =>
      rw [if_pos (recipient b r _ (List.mem_singleton_self _) output)]
      rfl
    | false =>
      have none : outputsOf tx [r.packet] = [] := by simp [outputsOf, output]
      rw [List.map_singleton, none]
      split
      · exact none
      · rfl

/-- A client that keeps its connection, and is known and among the recipients whenever the broker
passes on an output of a transaction, is sent all of them. -/
theorem Run.delivers (run : Run sights x) (kept : x.Keeps c)
    (recipient : ∀ b r done, .answered b r done ∈ sights → r.packet.isOutputOf tx = true →
      c ∈ b.subscriptions.recipients r.origin r.target ∧ Table.has b.clients c) :
    outputsOf tx (sentTo c sights) = outputsOf tx ((passedOn sights).map Reply.packet) := by
  induction run with
  | start registry => rfl
  | @turn sights new x y turn before step ih =>
    have turned := turned_of_turn before.wired step
    rcases turned.keeps before.wired kept with ⟨keeps, -⟩ | ⟨rfl, rfl⟩
    · have earlier := ih keeps fun b r done seen =>
        recipient b r done (List.mem_append_left _ seen)
      have now := turned.delivers before.wired keeps fun b r done seen =>
        recipient b r done (List.mem_append_right _ seen)
      rw [sentTo_append, outputsOf_append, earlier, now, passedOn_append, List.map_append,
        outputsOf_append]
    · -- It has just attached: nothing was sent to it, and no output was passed on before.
      have line := before.wired.lines x.nextClient
      rw [before.wired.fresh x.nextClient (Nat.le_refl _)] at line
      rw [List.append_nil] at recipient ⊢
      cases line with
      | absent read sent =>
        rw [sent]
        symm
        refine List.filter_eq_nil_iff.2 fun p member output => ?_
        obtain ⟨r, passed, rfl⟩ := List.mem_map.1 member
        obtain ⟨s, seen, same⟩ := List.mem_filterMap.1 passed
        cases s with
        | answered b r' done =>
          cases same
          have known := (recipient b r done seen output).2
          exact absurd ((before.passing seen).2.2 _ known) (Nat.lt_irrefl _)
        | received | heard | took | emitted => cases same

/-! ## Main result -/

/-- The last reply of a transaction was passed on. -/
def Ended (tx : String) (sights : List Sight) : Prop :=
  ∃ r ∈ passedOn sights, r.packet.isOutputOf tx = true ∧ r.packet.isTerminal = true

/-- A client is subscribed to a target whenever the broker passes on an output of a transaction. -/
def Subscribed (d : ClientId) (t : Target) (tx : String) (sights : List Sight) : Prop :=
  ∀ b r done, .answered b r done ∈ sights → r.packet.isOutputOf tx = true →
    d ∈ b.subscriptions.subscribers t

/-- How a client on a connection that is kept gets the stream of a transaction: what it has read is
always a part of the stream from its start; what it has read, what is on its way and what waits at
the broker are all of it; and once the broker has passed on the last reply and there is nothing to
forward and nothing to read, the client has read all of it. -/
structure Receives (tx : String) (sights : List Sight) (x : Exchange σ) (c : ClientId)
    (w : Conduit) : Prop where
  early : outputsOf tx (readBy c sights) <+: emittedOf tx sights
  whole : outputsOf tx (readBy c sights) ++ outputsOf tx w.inTransit ++
    outputsOf tx (x.replies.toList.map Reply.packet) = emittedOf tx sights
  ended : Ended tx sights →
    outputsOf tx (readBy c sights) ++ outputsOf tx w.inTransit = emittedOf tx sights
  settled : Ended tx sights → w.forward? = none → (∀ p v, w.receive ≠ .packet p v) →
    outputsOf tx (readBy c sights) = emittedOf tx sights

/-- Behind the last output of a transaction nothing waits. -/
theorem Run.nothing_waits (run : Run sights x)
    (once : (asksOf sights).countP (Request.executes tx) ≤ 1) (ended : Ended tx sights) :
    outputsOf tx (x.replies.toList.map Reply.packet) = [] := by
  obtain ⟨r, passed, output, terminal⟩ := ended
  have stream := run.emitted_isStream once
  have split : emittedOf tx sights = outputsOf tx ((passedOn sights).map Reply.packet) ++
      outputsOf tx (x.replies.toList.map Reply.packet) := by
    rw [emittedOf, run.accounts.said, List.map_append, outputsOf_append]
  rw [split] at stream
  have member : r.packet ∈ outputsOf tx ((passedOn sights).map Reply.packet) :=
    List.mem_filter.2 ⟨List.mem_map_of_mem passed, output⟩
  obtain ⟨i, here⟩ := List.getElem?_of_mem member
  have inside := (List.getElem?_eq_some_iff.1 here).1
  by_contra waiting
  have more : 0 < (outputsOf tx (x.replies.toList.map Reply.packet)).length :=
    List.length_pos_iff.2 waiting
  have goes := stream.last i r.packet ((List.getElem?_append_left inside).trans here)
    (by rw [List.length_append]; omega)
  rw [terminal] at goes
  cases goes

/-- A client that is sent all that is passed on receives the stream. -/
theorem Run.receives (run : Run sights x) {w : Conduit}
    (once : (asksOf sights).countP (Request.executes tx) ≤ 1)
    (found : Table.find? x.wires c = some (.conduit w)) (kept : w.keeps = true)
    (sent : outputsOf tx (sentTo c sights) = outputsOf tx ((passedOn sights).map Reply.packet)) :
    Receives tx sights x c w := by
  have balance := run.wired.balance found kept
  have whole : outputsOf tx (readBy c sights) ++ outputsOf tx w.inTransit ++
      outputsOf tx (x.replies.toList.map Reply.packet) = emittedOf tx sights := by
    rw [← outputsOf_append, balance, sent, emittedOf, run.accounts.said, List.map_append,
      outputsOf_append]
  have ended (ended : Ended tx sights) :
      outputsOf tx (readBy c sights) ++ outputsOf tx w.inTransit = emittedOf tx sights := by
    rw [run.nothing_waits once ended, List.append_nil] at whole
    exact whole
  refine ⟨?_, whole, ended, fun complete rests read => ?_⟩
  · rw [← whole, List.append_assoc]
    exact List.prefix_append _ _
  · obtain ⟨_, ⟨⟩, works⟩ := run.wired.conduit found
    have transit := Conduit.inTransit_of_rest works kept rests read
    have all := ended complete
    rw [transit] at all
    exact (List.append_nil _).symm.trans all

/-- In every run of an exchange, whoever takes a turn when, the outputs that the machine sends for an
execute, alone under its transaction id but for cancels, are a stream, and that stream is what the
client that asked receives, if it keeps its connection, and every other client that keeps its
connection and is subscribed to the target while the broker passes the outputs on. -/
theorem streams_arrive (run : Run sights x) {t : Target} {p : Packet}
    (asked : .execute c t p ∈ asksOf sights)
    (once : (asksOf sights).countP (Request.executes p.tx) ≤ 1) :
    (∀ r ∈ emissions sights, r.packet.isOutputOf p.tx = true →
        r.origin = c ∧ r.target = some t) ∧
      IsStream (emittedOf p.tx sights) ∧
      (∀ w, Table.find? x.wires c = some (.conduit w) → w.keeps = true →
        Receives p.tx sights x c w) ∧
      ∀ d w, d ≠ c → Table.find? x.wires d = some (.conduit w) → w.keeps = true →
        Subscribed d t p.tx sights → Receives p.tx sights x d w := by
  obtain ⟨n, place⟩ := List.getElem?_of_mem asked
  have answers (r : Reply) (sent : r ∈ emissions sights)
      (output : r.packet.isOutputOf p.tx = true) : r.origin = c ∧ r.target = some t :=
    (run.output_source once sent output place rfl).2
  have source {b : Broker} {r : Reply} {done : List Effect} (seen : .answered b r done ∈ sights)
      (output : r.packet.isOutputOf p.tx = true) : r.origin = c ∧ r.target = some t := by
    refine answers r ?_ output
    rw [run.accounts.said]
    exact List.mem_append_left _ (run.passing seen).1
  refine ⟨answers, run.emitted_isStream once, fun w found kept => ?_,
    fun d w other found kept on => ?_⟩
  · refine run.receives once found kept (run.delivers ⟨w, found, kept⟩ ?_)
    intro b r done seen output
    obtain ⟨rfl, target⟩ := source seen output
    have type := (Packet.isOutputOf_iff.1 output).1
    refine ⟨?_, run.owner_known seen type ⟨w, found, kept⟩⟩
    rw [target]
    exact List.mem_cons_self
  · refine run.receives once found kept (run.delivers ⟨w, found, kept⟩ ?_)
    intro b r done seen output
    obtain ⟨rfl, target⟩ := source seen output
    have subscribed := on b r done seen output
    have known := (run.passing seen).2.1.enrolled d
      (Subscriptions.holds_of_mem_subscribers subscribed)
    refine ⟨?_, known⟩
    rw [target]
    apply List.mem_cons_of_mem
    simpa [other] using subscribed

/-- Two clients attach and connect, one of them subscribes to a function with two outputs, the other
calls it, and both read what they are sent. -/
def pairTurns : List (Turn Unit) :=
  List.flatten
    [[.attach 8, .attach 8, .send 0 (.connect "a"), .send 1 (.connect "b"), .pump 0, .pump 1,
        .hear, .hear, .hear, .hear, .send 1 (.subscribe "s" (.function "pair")), .pump 1, .hear,
        .send 0 (.callFunction "t" "pair" .null), .pump 0, .hear, .take],
      List.replicate 8 (.work (.task 0 0)), [.answer, .answer],
      List.replicate 6 (.forward 0), List.replicate 8 (.forward 1),
      List.replicate 3 (.receive 0), List.replicate 4 (.receive 1)]

theorem subscribed_of_all {d : ClientId} {t : Target}
    (all : (sights.all fun
      | .answered b r _ => !r.packet.isOutputOf tx || decide (d ∈ b.subscriptions.subscribers t)
      | _ => true) = true) : Subscribed d t tx sights := by
  intro b r done seen output
  simpa [output] using List.all_eq_true.1 all _ seen

theorem streams_arrive_pair :
    ∃ (sights : List Sight) (x : Exchange Unit),
      (start Machine.pairRegistry).turns? pairTurns = some (sights, x) ∧
      IsStream (emittedOf "t" sights) ∧ (emittedOf "t" sights).length = 2 ∧
      outputsOf "t" (readBy 0 sights) = emittedOf "t" sights ∧
      outputsOf "t" (readBy 1 sights) = emittedOf "t" sights := by
  obtain ⟨sights, x, w, v, taken, asks, two, passed, on, first, kept0, rests0, idle0, second, kept1,
      rests1, idle1⟩ : ∃ (sights : List Sight) (x : Exchange Unit) (w v : Conduit),
      (start Machine.pairRegistry).turns? pairTurns = some (sights, x) ∧
      asksOf sights = [.execute 0 (.function "pair") (.callFunction "t" "pair" .null)] ∧
      (emittedOf "t" sights).length = 2 ∧
      (passedOn sights).any (fun r => r.packet.isOutputOf "t" && r.packet.isTerminal) = true ∧
      (sights.all fun
        | .answered b r _ => !r.packet.isOutputOf "t" ||
            decide (1 ∈ b.subscriptions.subscribers (.function "pair"))
        | _ => true) = true ∧
      Table.find? x.wires 0 = some (.conduit w) ∧ w.keeps = true ∧ w.forward? = none ∧
      w.receive = .waiting ∧
      Table.find? x.wires 1 = some (.conduit v) ∧ v.keeps = true ∧ v.forward? = none ∧
      v.receive = .waiting :=
    ⟨_, _, _, _, rfl, rfl, rfl, rfl, rfl, rfl, rfl, rfl, rfl, rfl, rfl, rfl, rfl⟩
  have run : Run sights x := (Run.start Machine.pairRegistry).turns taken
  have ended : Ended "t" sights := by simpa [Ended] using passed
  have asked : .execute 0 (.function "pair") (.callFunction "t" "pair" .null) ∈ asksOf sights := by
    rw [asks]
    exact List.mem_singleton_self _
  obtain ⟨-, stream, own, others⟩ := streams_arrive run asked (by rw [asks]; decide)
  have mine := (own w first kept0).settled ended rests0 (by simp [idle0])
  have theirs := (others 1 v (by decide) second kept1 (subscribed_of_all on)).settled ended rests1
    (by simp [idle1])
  exact ⟨sights, x, taken, stream, two, mine, theirs⟩

end Exchange

end Patchbay
