import Patchbay.Proofs.Clients.Consumption

/-!
# Answers to requests

A client knows the answer to a request by its transaction alone. Answers come in the order of the
requests, but after any time, and what comes too late for one request is kept. So a request is told
the answer to its own packet exactly when the earlier answers under its transaction are all consumed;
otherwise it is told the earliest that is not. Under a new id that is its own; under the id of a cancel
whose answer was late it is that one.
-/

namespace Patchbay

variable {α : Type} [Channel α]

namespace Arrivals

variable {a : Arrivals} {e : Packet × Nat} {wants : Packet → Bool} {x : String}

/-- Answers to one transaction are consumed in the order in which they arrive. -/
def InTurn (a : Arrivals) : Prop :=
  ∀ x, ∀ f ∈ a.consumed, ∀ g ∈ a.left, (Client.Want.answer x).accepts f.1 = true →
    (Client.Want.answer x).accepts g.1 = true → f.2 < g.2

/-- Who wants one answer to a transaction wants any. -/
def Fair (wants : Packet → Bool) : Prop :=
  ∀ x p q, (Client.Want.answer x).accepts p = true → (Client.Want.answer x).accepts q = true →
    wants p = true → wants q = true

theorem InTurn.arrive (turn : a.InTurn) (sound : a.Sound) (ps : List Packet) :
    (a.arrive ps).InTurn := by
  intro x f consumed g left first second
  rw [sound.left_arrive] at left
  rcases List.mem_append.1 left with old | new
  · exact turn x f consumed g old first second
  · have before := List.snd_lt_of_mem_zipIdx (sound.arrived consumed)
    have behind := List.le_snd_of_mem_zipIdx new
    omega

theorem InTurn.consume (turn : a.InTurn) (fair : Fair wants) (earliest : a.Earliest wants e) :
    (a.consume e).InTurn := by
  intro x f consumed g left first second
  obtain ⟨there, fresh⟩ := mem_left.1 left
  have other : g.2 ∉ a.consumed.map Prod.snd ∧ g.2 ≠ e.2 := by
    simpa [Arrivals.consume, not_or] using fresh
  have kept : g ∈ a.left := mem_left.2 ⟨there, other.1⟩
  rcases List.mem_append.1 consumed with old | new
  · exact turn x f old g kept first second
  · obtain rfl := List.mem_singleton.1 new
    have wanted := fair x f.1 g.1 first second earliest.wanted
    exact Nat.lt_of_le_of_ne (earliest.first g kept wanted) other.2.symm

theorem countP_zipIdx_lt (accepts : Packet → Bool) (ps : List Packet) (k n : Nat) :
    ((ps.zipIdx k).countP fun f => accepts f.1 && decide (f.2 < k + n)) =
      (ps.take n).countP accepts := by
  induction ps generalizing k n with
  | nil => simp
  | cons p rest ih =>
    cases n with
    | zero =>
      refine List.countP_eq_zero.2 fun f member => ?_
      have behind := List.le_snd_of_mem_zipIdx member
      simp [Nat.not_lt.2 behind]
    | succ n =>
      have shift : k + (n + 1) = k + 1 + n := by omega
      rw [List.zipIdx_cons, List.countP_cons, shift, ih, List.take_succ_cons, List.countP_cons]
      simp [Nat.lt_add_right n (Nat.lt_succ_self k)]

/-- Before the earliest answer to a transaction that is left come those that were consumed. -/
theorem InTurn.countP_consumed (turn : a.InTurn) (sound : a.Sound) (fair : Fair wants)
    (earliest : a.Earliest wants e) (answer : (Client.Want.answer x).accepts e.1 = true) :
    (a.consumed.countP fun f => (Client.Want.answer x).accepts f.1) =
      (a.received.take e.2).countP (Client.Want.answer x).accepts := by
  have split := countP_zipIdx_lt (Client.Want.answer x).accepts a.received 0 e.2
  rw [Nat.zero_add, sound.partition.countP_eq, List.countP_append] at split
  have behind : (a.left.countP fun f =>
      (Client.Want.answer x).accepts f.1 && decide (f.2 < e.2)) = 0 := by
    refine List.countP_eq_zero.2 fun g left => ?_
    simp only [Bool.and_eq_true, decide_eq_true_eq, not_and, Nat.not_lt]
    intro also
    exact earliest.first g left (fair x e.1 g.1 answer also earliest.wanted)
  rw [← split, behind, Nat.add_zero]
  refine List.countP_congr fun f consumed => ?_
  simp only [Bool.and_eq_true, decide_eq_true_eq, iff_self_and]
  intro first
  exact turn x f consumed e earliest.left first answer

end Arrivals

namespace Client

open Arrivals (Fair InTurn)

variable {c c' : Client (Tapped α)} {a : Arrivals} {op : Operation} {o : Outcome}
  {asked received : List Packet} {q : Packet} {e : Packet × Nat} {x : String}

/-! ## Requests and answers in order -/

/-- The request that an operation sends. -/
def Operation.requests (op : Operation) (c : Client α) : List Packet :=
  (op.question? c).toList.filter fun p => (Channel.send c.channel p).isOk

/-- A client since its start, what arrived there, and the requests that it sent. -/
inductive Session : Client (Tapped α) → Arrivals → List Packet → Prop where
  | start (inner : α) (number requestTimeout : Nat) :
      Session (.start ⟨inner, []⟩ number requestTimeout) ⟨[], []⟩ []
  | perform {c : Client (Tapped α)} {a : Arrivals} {asked : List Packet} (op : Operation)
      (before : Session c a asked) :
      Session (op.perform c).2 (op.account c a) (asked ++ op.requests c)
  | meanwhile {c : Client (Tapped α)} {a : Arrivals} {asked : List Packet} (inner : α)
      (before : Session c a asked) :
      Session { c with channel := { c.channel with inner := inner } } a asked
  | limit {c : Client (Tapped α)} {a : Arrivals} {asked : List Packet} (timeout : Option Nat)
      (before : Session c a asked) : Session { c with executeTimeout := timeout } a asked

/-- The answers among packets. -/
def answersIn (ps : List Packet) : List Packet := ps.filter (·.type == .respond)

/-- Each request is answered once, under its transaction and in order; the last ones may not be yet. -/
def InOrder (asked received : List Packet) : Prop :=
  (answersIn received).map Packet.tx <+: asked.map Packet.tx

/-- The answer to the request with a number, with its own number among all that was received. -/
structure Answers (received : List Packet) (n : Nat) (e : Packet × Nat) : Prop where
  arrived : e ∈ received.zipIdx
  answer : e.1.type = .respond
  place : (answersIn (received.take e.2)).length = n

theorem Session.used (session : Session c a asked) : Used c a := by
  induction session with
  | start inner number requestTimeout => exact .start inner number requestTimeout
  | perform op before ih => exact .perform op ih
  | meanwhile inner before ih => exact .meanwhile inner ih
  | limit timeout before ih => exact .limit timeout ih

/-! ## One operation -/

theorem Want.accepts_answer {p : Packet} :
    (Want.answer x).accepts p = true ↔ p.type = .respond ∧ p.tx = x := by
  simp [Want.accepts]

omit [Channel α] in
/-- Whatever an operation wants, it does not choose among the answers to one transaction. -/
theorem Operation.fair (op : Operation) (c : Client α) : Fair (op.wants c) := by
  intro x p r first second wanted
  rw [Want.accepts_answer] at first second
  cases op with
  | listen timeout => rfl
  | waitFor fuel tx => simp [wants, Want.accepts, first.1] at wanted
  | connect | subscribe | unsubscribe | disconnect | cancel =>
    simp only [wants, Want.accepts_answer] at wanted ⊢
    exact ⟨second.1, second.2.trans (first.2.symm.trans wanted.2)⟩
  | execute packet => cases wanted
  | sendExecute packet => cases wanted

/-- Who sends a request wants the answers to its transaction. -/
theorem Operation.wants_of_requests {c : Client α} (sends : op.requests c = [q]) :
    op.wants c = (Want.answer q.tx).accepts := by
  have question : op.question? c = some q := by
    have member : q ∈ op.requests c := sends ▸ List.mem_singleton_self q
    simpa using (List.mem_filter.1 member).1
  cases op with
  | listen | waitFor | execute | sendExecute => cases question
  | connect | subscribe | unsubscribe | disconnect | cancel =>
    obtain rfl := Option.some.inj question
    rfl

theorem Keeps.inTurn (keeps : Keeps c a) (turn : a.InTurn) (h : op.perform c = (o, c')) :
    (c'.since a).Sound ∧ (c'.since a).InTurn ∧ (op.account c a).InTurn := by
  have operated := operated_of_keeps keeps h
  obtain ⟨new, received⟩ := operated.grows
  have since := keeps.since_eq received.symm
  have sound := keeps.sound.arrive new
  have arrived := turn.arrive keeps.sound new
  rw [← since] at sound arrived
  refine ⟨sound, arrived, ?_⟩
  by_cases none : o.Fits none
  · rw [(operated.keeps none).1]
    exact arrived
  · obtain ⟨e, earliest, -, account⟩ := operated.takes none
    rw [account]
    exact arrived.consume (op.fair c) earliest

/-! ## Runs -/

theorem Used.inTurn (used : Used c a) : a.InTurn := by
  induction used with
  | start => simp [InTurn]
  | perform op before ih => exact (before.keeps.inTurn ih rfl).2.2
  | meanwhile inner before ih => exact ih
  | limit timeout before ih => exact ih

/-! ## Places of answers -/

/-- An entry stands at the end of a list exactly when as many of its kind are before it as there. -/
theorem length_eq_iff_count {T U : List String} (front : T ++ [x] <+: U ++ [x]) :
    T.count x ≤ U.count x ∧ (T.length = U.length ↔ T.count x = U.count x) := by
  have short : T.length ≤ U.length := by simpa using front.length_le
  have within : T <+: U :=
    List.prefix_of_prefix_length_le ((List.prefix_append T [x]).trans front)
      (List.prefix_append U [x]) short
  have fewer : T.count x ≤ U.count x := within.sublist.count_le x
  refine ⟨fewer, fun same => by rw [within.eq_of_length same], fun same => ?_⟩
  by_contra apart
  have longer : (T ++ [x]).length ≤ U.length := by
    rw [List.length_append, List.length_singleton]
    omega
  have under : T ++ [x] <+: U :=
    List.prefix_of_prefix_length_le front (List.prefix_append U [x]) longer
  have more := under.sublist.count_le x
  rw [List.count_append, List.count_singleton_self] at more
  omega

/-- As many answers are under a transaction as packets would be taken for one. -/
theorem count_tx (ps : List Packet) :
    ((answersIn ps).map Packet.tx).count x = ps.countP (Want.answer x).accepts := by
  rw [List.count_eq_countP, List.countP_map, answersIn, List.countP_filter]
  refine List.countP_congr fun p _ => ?_
  simp [Want.accepts_answer, and_comm]

/-- The transactions of the answers up to one of them. -/
theorem answersIn_upTo (arrived : e ∈ received.zipIdx) (type : e.1.type = .respond)
    (tx : e.1.tx = x) :
    (answersIn (received.take e.2)).map Packet.tx ++ [x] <+: (answersIn received).map Packet.tx := by
  have there := List.mem_zipIdx_iff_getElem?.1 arrived
  obtain ⟨bound, same⟩ := List.getElem?_eq_some_iff.1 there
  have next : received.take (e.2 + 1) = received.take e.2 ++ [e.1] := by
    rw [List.take_succ_eq_append_getElem bound, same]
  have whole : answersIn (received.take (e.2 + 1)) = answersIn (received.take e.2) ++ [e.1] := by
    rw [next, answersIn, List.filter_append]
    simp [answersIn, type]
  have upTo := ((List.take_prefix (e.2 + 1) received).filter (·.type == .respond)).map Packet.tx
  rw [answersIn] at whole
  rw [whole, List.map_append, List.map_singleton, tx] at upTo
  exact upTo

/-! ## Main result -/

/-- Of the answers under its transaction, at most as many are consumed as were asked for before. A
request is told the answer to its own packet exactly when none is missing. -/
theorem own_answer_iff (session : Session c a asked) (sends : op.requests c = [q])
    (h : op.perform c = (o, c')) (order : InOrder (asked ++ [q]) c'.received)
    (takes : ¬ o.Fits none) :
    ∃ n e, Answers c'.received n e ∧ o.Fits (some e.1) ∧ op.account c a = (c'.since a).consume e ∧
      (a.consumed.countP fun f => (Want.answer q.tx).accepts f.1) ≤ asked.countP (·.tx == q.tx) ∧
      (n = asked.length ↔ (a.consumed.countP fun f => (Want.answer q.tx).accepts f.1) =
        asked.countP (·.tx == q.tx)) := by
  have keeps := session.used.keeps
  obtain ⟨sound, turn, -⟩ := keeps.inTurn session.used.inTurn h
  obtain ⟨e, earliest, fits, account⟩ := (operated_of_keeps keeps h).takes takes
  have answer : (Want.answer q.tx).accepts e.1 = true := by
    rw [← Operation.wants_of_requests sends]
    exact earliest.wanted
  have arrived : e ∈ c'.received.zipIdx := (Arrivals.mem_left.1 earliest.left).1
  obtain ⟨type, tx⟩ := Want.accepts_answer.1 answer
  have consumed : (a.consumed.countP fun f => (Want.answer q.tx).accepts f.1) = _ :=
    turn.countP_consumed sound (op.fair c) earliest answer
  have front : (answersIn (c'.received.take e.2)).map Packet.tx ++ [q.tx] <+:
      asked.map Packet.tx ++ [q.tx] := by
    rw [InOrder, List.map_append] at order
    exact (answersIn_upTo arrived type tx).trans order
  have place := length_eq_iff_count front
  rw [List.length_map, List.length_map, count_tx, List.count_eq_countP, List.countP_map] at place
  rw [consumed]
  exact ⟨_, e, ⟨arrived, type, rfl⟩, fits, account, place⟩

/-- A request under a new transaction is told the answer to its own packet. -/
theorem own_answer_of_new (session : Session c a asked) (sends : op.requests c = [q])
    (h : op.perform c = (o, c')) (order : InOrder (asked ++ [q]) c'.received)
    (takes : ¬ o.Fits none) (fresh : ∀ p ∈ asked, p.tx ≠ q.tx) :
    ∃ e, Answers c'.received asked.length e ∧ o.Fits (some e.1) := by
  obtain ⟨n, e, answers, fits, -, most, own⟩ := own_answer_iff session sends h order takes
  have never : asked.countP (·.tx == q.tx) = 0 :=
    List.countP_eq_zero.2 fun p member => by simpa using fresh p member
  rw [never] at most own
  obtain rfl := own.2 (Nat.le_zero.1 most)
  exact ⟨e, answers, fits⟩

/-- The answer to a cancel comes when the wait for it is over. -/
def late : Script := ⟨[.expired, .packet (.respondOk "x")]⟩

/-- The next cancel of the transaction is told it, and its own answer is still to come. -/
theorem not_own_answer_late :
    ∃ (c : Client (Tapped Script)) (a : Arrivals) (asked : List Packet),
      Session c a asked ∧ asked = [.cancel "x"] ∧
      ((Operation.cancel 2 "x").perform c).1 = .answered none ∧
      InOrder (asked ++ [.cancel "x"]) ((Operation.cancel 2 "x").perform c).2.received ∧
      ∀ e, ¬ Answers ((Operation.cancel 2 "x").perform c).2.received asked.length e := by
  have session := Session.perform (.cancel 2 "x") <| .start late 1 1000
  refine ⟨_, _, _, session, rfl, rfl, List.prefix_append [_] [_], ?_⟩
  rintro e ⟨arrived, -, place⟩
  have first : e = (.respondOk "x", 0) := List.mem_singleton.1 arrived
  subst first
  cases place

end Client

end Patchbay
