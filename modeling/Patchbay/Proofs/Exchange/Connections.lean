import Patchbay.Proofs.Conduits
import Patchbay.Proofs.Exchange.Turns

/-!
# Connections of an exchange

What every turn does to every connection: the packets that the broker delivers in the turn go in, and
those that the client reads come out. So what a client has read and what is on its way to it are
together what it was sent, for as long as the connection is kept.
-/

namespace Patchbay.Exchange

variable {σ : Type} {x y : Exchange σ} {c : ClientId} {w v : Conduit} {sights new : List Sight}

/-! ## Effects -/

theorem effect_conduit (found : Table.find? x.wires c = some (.conduit w)) (e : Effect) :
    ∃ v, Table.find? (x.effect e).wires c = some (.conduit v) ∧
      w.Passes (packetsTo c [e]) [] v ∧ (e = .hangUp c → v.keeps = false) := by
  cases e with
  | deliver d p =>
    simp only [effect, Table.find?_modify, found, Option.map_some]
    by_cases here : d = c
    · rw [if_pos here]
      have packet : packetsTo c [.deliver d p] = [p] := by simp [packetsTo, here]
      rw [packet]
      exact ⟨w.deliver p, rfl, w.passes_deliver p, fun same => by cases same⟩
    · rw [if_neg here]
      have nothing : packetsTo c [.deliver d p] = [] := by simp [packetsTo, here]
      rw [nothing]
      exact ⟨w, rfl, .refl w, fun same => by cases same⟩
  | hangUp d =>
    simp only [effect, Table.find?_modify, found, Option.map_some]
    by_cases here : d = c
    · rw [if_pos here]
      exact ⟨w.drop, rfl, w.passes_drop, fun _ => w.keeps_drop⟩
    · rw [if_neg here]
      refine ⟨w, rfl, .refl w, ?_⟩
      intro same
      cases same
      exact absurd rfl here
  | request r => exact ⟨w, found, .refl w, fun same => by cases same⟩

/-- Effects deliver to a connection what is delivered to its client, and end it by hanging up. -/
theorem effects_conduit (found : Table.find? x.wires c = some (.conduit w)) (es : List Effect) :
    ∃ v, Table.find? (es.foldl effect x).wires c = some (.conduit v) ∧
      w.Passes (packetsTo c es) [] v ∧ (.hangUp c ∈ es → v.keeps = false) := by
  induction es generalizing x w with
  | nil => exact ⟨w, found, .refl w, by simp⟩
  | cons e rest ih =>
    obtain ⟨u, first, passes, ended⟩ := effect_conduit found e
    obtain ⟨v, last, later, afterwards⟩ := ih first
    have both : packetsTo c (e :: rest) = packetsTo c [e] ++ packetsTo c rest :=
      packetsTo_append c [e] rest
    refine ⟨v, last, both ▸ passes.trans later, fun gone => ?_⟩
    rcases List.mem_cons.1 gone with here | there
    · have lost := ended here.symm
      have kept := later.kept
      rw [lost] at kept
      simpa using kept
    · exact afterwards there

theorem effects_absent (absent : Table.find? x.wires c = none) (es : List Effect) :
    Table.find? (es.foldl effect x).wires c = none := by
  induction es generalizing x with
  | nil => exact absent
  | cons e rest ih =>
    apply ih
    cases e with
    | deliver d p => simp [effect, Table.find?_modify, absent]
    | hangUp d => simp [effect, Table.find?_modify, absent]
    | request r => exact absent

/-- Effects touch the connections and the requests only. -/
structure Touches (es : List Effect) (x y : Exchange σ) : Prop where
  broker : y.broker = x.broker
  machine : y.machine = x.machine
  replies : y.replies = x.replies
  events : y.events = x.events
  nextClient : y.nextClient = x.nextClient
  requests : y.requests.toList = x.requests.toList ++ Patchbay.requests es

theorem effects_touches (es : List Effect) (x : Exchange σ) : Touches es x (es.foldl effect x) := by
  induction es generalizing x with
  | nil => exact ⟨rfl, rfl, rfl, rfl, rfl, (List.append_nil _).symm⟩
  | cons e rest ih =>
    obtain ⟨broker, machine, replies, events, nextClient, asked⟩ := ih (x.effect e)
    have first : Touches [e] x (x.effect e) := by
      cases e with
      | deliver d p => exact ⟨rfl, rfl, rfl, rfl, rfl, (List.append_nil _).symm⟩
      | hangUp d => exact ⟨rfl, rfl, rfl, rfl, rfl, (List.append_nil _).symm⟩
      | request r => exact ⟨rfl, rfl, rfl, rfl, rfl, by simp [effect, Patchbay.requests]⟩
    refine ⟨broker.trans first.broker, machine.trans first.machine,
      replies.trans first.replies, events.trans first.events,
      nextClient.trans first.nextClient, ?_⟩
    have both : Patchbay.requests (e :: rest) = Patchbay.requests [e] ++ Patchbay.requests rest :=
      requests_append [e] rest
    rw [List.foldl_cons, asked, first.requests, both, List.append_assoc]

theorem apply_touches (z : Exchange σ) (o : Broker.Outcome) :
    Touches o.2 { z with broker := some o.1 } (z.apply o) := effects_touches o.2 _

theorem apply_absent {z : Exchange σ} (absent : Table.find? z.wires c = none) (o : Broker.Outcome) :
    Table.find? (z.apply o).wires c = none :=
  effects_absent (x := { z with broker := some o.1 }) absent o.2

theorem apply_conduit {z : Exchange σ} (found : Table.find? z.wires c = some (.conduit w))
    (o : Broker.Outcome) :
    ∃ v, Table.find? (z.apply o).wires c = some (.conduit v) ∧
      w.Passes (packetsTo c o.2) [] v ∧ (.hangUp c ∈ o.2 → v.keeps = false) :=
  effects_conduit (x := { z with broker := some o.1 }) found o.2

/-! ## Turns -/

/-- All that a turn can do while there are connections inside the process only, and the machine
runs. -/
inductive Turned (x : Exchange σ) : List Sight → Exchange σ → Prop where
  | attach (capacity : Nat) : Turned x [] (x.attach (.conduit (.start capacity))).2
  | link {c : ClientId} {w v : Conduit} {out : List Packet} {wires : Table ClientId Wire}
      (signals : List Signal) (found : Table.find? x.wires c = some (.conduit w))
      (others : ∀ d, Table.find? wires d = if c = d then some (.conduit v)
        else Table.find? x.wires d)
      (passes : w.Passes [] out v) :
      Turned x (out.map (.received c))
        { x with wires := wires, events := x.events.pushAll (signals.map (event c)) }
  | idle (now : Nat) (registry : Registry σ) :
      Turned x [] { x with now := now, machine := { x.machine with registry := registry } }
  | hear {b : Broker} {e : Event} {rest : Queue Event} (broker : x.broker = some b)
      (popped : x.events.pop? = some (e, rest)) :
      Turned x [.heard b e (b.handle x.links true e).2]
        ({ x with events := rest }.apply (b.handle x.links true e))
  | answer {b : Broker} {r : Reply} {rest : Queue Reply} (broker : x.broker = some b)
      (popped : x.replies.pop? = some (r, rest)) :
      Turned x [.answered b r (b.deliverReply x.links r).2]
        ({ x with replies := rest }.apply (b.deliverReply x.links r))
  | take {r : Request} {rest : Queue Request} {m : Machine σ}
      (popped : x.requests.pop? = some (r, rest)) (moved : x.machine.move? (.request r) = some m) :
      Turned x (.took r :: m.replies.map .emitted) ({ x with requests := rest }.collect m)
  | work {l : Machine.Move} {m : Machine σ} (own : x.goesOn l) (moved : x.machine.move? l = some m) :
      Turned x (m.replies.map .emitted) (x.collect m)

/-- How a client's connection stands: there is none, or what the client has read and what is on its
way are together what it was sent, unless the connection was given up. -/
inductive Line (c : ClientId) (sights : List Sight) : Option Wire → Prop where
  | absent (read : readBy c sights = []) (sent : sentTo c sights = []) : Line c sights none
  | conduit {w : Conduit} (works : w.Works)
      (balance : w.keeps = true → readBy c sights ++ w.inTransit = sentTo c sights) :
      Line c sights (some (.conduit w))

/-- The connections of an exchange whose broker and machine run. -/
structure Wired (sights : List Sight) (x : Exchange σ) : Prop where
  running : x.machine.stopping = false ∧ x.machine.halted = false
  broker : ∃ b, x.broker = some b ∧ b.Plain
  fresh : ∀ c, x.nextClient ≤ c → Table.find? x.wires c = none
  lines : ∀ c, Line c sights (Table.find? x.wires c)

/-- Every connection is one inside the process. -/
theorem Wired.conduit (h : Wired sights x) {u : Wire} (found : Table.find? x.wires c = some u) :
    ∃ w, u = .conduit w ∧ w.Works := by
  have line := h.lines c
  rw [found] at line
  cases line with
  | conduit works balance => exact ⟨_, rfl, works⟩

theorem Wired.balance (h : Wired sights x) (found : Table.find? x.wires c = some (.conduit w))
    (kept : w.keeps = true) : readBy c sights ++ w.inTransit = sentTo c sights := by
  have line := h.lines c
  rw [found] at line
  cases line with
  | conduit works balance => exact balance kept

/-- Connections inside the process take every packet. -/
theorem Wired.carries (h : Wired sights x) : Broker.Carries x.links := by
  intro c p v
  unfold links
  cases found : Table.find? x.wires c with
  | none => simp
  | some u =>
    obtain ⟨w, rfl, works⟩ := h.conduit found
    simp only [Wire.deliverable, Conduit.deliverable]
    split <;> simp

/-- A connection that is kept can be delivered to. -/
theorem Wired.linked (h : Wired sights x) (found : Table.find? x.wires c = some (.conduit w))
    (kept : w.keeps = true) (p : Packet) : x.links c p = .ok () := by
  obtain ⟨_, ⟨⟩, works⟩ := h.conduit found
  simp [links, found, Wire.deliverable, Conduit.deliverable, works.forwarding kept]

/-- Where one wire is written, the others are found as they were. -/
private theorem link_put (x : Exchange σ) (c : ClientId) (u : Wire) (d : ClientId) :
    Table.find? (Table.put x.wires c u) d = if c = d then some u else Table.find? x.wires d :=
  Table.find?_put x.wires c d u

/-- A connection moves and its client reads nothing. -/
private theorem Turned.moved {wires : Table ClientId Wire} (signals : List Signal)
    (found : Table.find? x.wires c = some (.conduit w))
    (others : ∀ d, Table.find? wires d = if c = d then some (.conduit v)
      else Table.find? x.wires d)
    (passes : w.Passes [] [] v) :
    Turned x [] { x with wires := wires, events := x.events.pushAll (signals.map (event c)) } := by
  have turned := Turned.link signals found others passes
  exact turned

theorem turned_of_turn (h : Wired sights x) {t : Turn σ} (step : x.turn? t = some (new, y)) :
    Turned x new y := by
  cases t with
  | attach capacity =>
    cases step
    exact .attach capacity
  | send c p =>
    simp only [turn?, send] at step
    cases found : Table.find? x.wires c with
    | none => simp [found] at step
    | some u =>
      obtain ⟨w, rfl, works⟩ := h.conduit found
      simp only [found, Wire.send] at step
      cases sent : w.send p with
      | error e => simp [sent, Except.map] at step
      | ok v =>
        simp only [sent, Except.map, Option.some.injEq, Prod.mk.injEq] at step
        obtain ⟨rfl, rfl⟩ := step
        exact .moved [] found (x.link_put c _) (Conduit.passes_send sent)
  | close c =>
    obtain ⟨u, found, same⟩ := Option.map_eq_some_iff.1 step
    cases same
    obtain ⟨w, rfl, works⟩ := h.conduit found
    refine .moved [] found (fun d => ?_) w.passes_close
    rw [Table.find?_modify]
    split
    · next here =>
      subst here
      rw [found]
      rfl
    · simp
  | receive c =>
    simp only [turn?, receive] at step
    cases found : Table.find? x.wires c with
    | none => simp [found] at step
    | some u =>
      obtain ⟨w, rfl, works⟩ := h.conduit found
      simp only [found, Wire.receive] at step
      cases got : w.receive with
      | packet p v =>
        simp only [got, Option.some.injEq, Prod.mk.injEq] at step
        obtain ⟨rfl, rfl⟩ := step
        have turned := Turned.link [] found (x.link_put c _) (Conduit.passes_receive got)
        exact turned
      | failed e v => simp [got] at step
      | waiting => simp [got] at step
  | pump c =>
    obtain ⟨z, made, same⟩ := Option.map_eq_some_iff.1 step
    cases same
    obtain ⟨u, found, made⟩ := Option.bind_eq_some_iff.1 made
    obtain ⟨⟨signals, u'⟩, moved, same⟩ := Option.bind_eq_some_iff.1 made
    cases same
    obtain ⟨w, rfl, works⟩ := h.conduit found
    obtain ⟨⟨signal, v⟩, pumped, same⟩ := Option.map_eq_some_iff.1 moved
    cases same
    exact .moved [signal] found (x.link_put c _) (Conduit.passes_pump pumped)
  | hear =>
    obtain ⟨b, broker, step⟩ := Option.bind_eq_some_iff.1 step
    obtain ⟨⟨e, rest⟩, popped, step⟩ := Option.bind_eq_some_iff.1 step
    cases step
    rw [h.running.2]
    exact .hear broker popped
  | answer =>
    obtain ⟨b, broker, step⟩ := Option.bind_eq_some_iff.1 step
    obtain ⟨⟨r, rest⟩, popped, step⟩ := Option.bind_eq_some_iff.1 step
    cases step
    exact .answer broker popped
  | take =>
    obtain ⟨⟨r, rest⟩, popped, step⟩ := Option.bind_eq_some_iff.1 step
    obtain ⟨m, moved, step⟩ := Option.bind_eq_some_iff.1 step
    cases step
    exact .take popped moved
  | work l =>
    simp only [turn?, work?] at step
    split at step
    · next own =>
      obtain ⟨m, moved, same⟩ := Option.map_eq_some_iff.1 step
      cases same
      exact .work own moved
    · cases step
  | forward c =>
    obtain ⟨z, made, same⟩ := Option.map_eq_some_iff.1 step
    cases same
    obtain ⟨u, found, made⟩ := Option.bind_eq_some_iff.1 made
    obtain ⟨u', moved, same⟩ := Option.bind_eq_some_iff.1 made
    cases same
    obtain ⟨w, rfl, works⟩ := h.conduit found
    obtain ⟨v, forwarded, same⟩ := Option.map_eq_some_iff.1 moved
    cases same
    exact .moved [] found (x.link_put c _) (Conduit.passes_forward forwarded)
  | wait now =>
    cases step
    exact .idle now x.machine.registry
  | exchange registry =>
    cases step
    exact .idle x.now registry

/-! ## What a connection passes -/

/-- What a connection passes in a turn, which may be its first. -/
inductive Conveys : Option Wire → (into out : List Packet) → Option Wire → Prop where
  | absent : Conveys none [] [] none
  | attached (capacity : Nat) : Conveys none [] [] (some (.conduit (.start capacity)))
  | passes {w v : Conduit} {into out : List Packet} (passes : w.Passes into out v) :
      Conveys (some (.conduit w)) into out (some (.conduit v))

theorem Line.next {u u' : Option Wire} {into out : List Packet} (line : Line c sights u)
    (conveys : Conveys u into out u') (read : readBy c new = out) (sent : sentTo c new = into) :
    Line c (sights ++ new) u' := by
  cases conveys with
  | absent =>
    cases line with
    | absent unread unsent => exact .absent (by simp [unread, read]) (by simp [unsent, sent])
  | attached capacity =>
    cases line with
    | absent unread unsent =>
      refine .conduit (Conduit.works_start capacity) fun _ => ?_
      simp [unread, read, unsent, sent, Conduit.inTransit_start]
  | @passes w v into out passes =>
    cases line with
    | conduit works balance =>
      refine .conduit (passes.works works) fun kept => ?_
      have before := balance (passes.kept kept)
      have turn := passes.transit kept
      calc readBy c (sights ++ new) ++ v.inTransit
          = readBy c sights ++ (out ++ v.inTransit) := by rw [readBy_append, read, List.append_assoc]
        _ = (readBy c sights ++ w.inTransit) ++ into := by rw [← turn, List.append_assoc]
        _ = sentTo c (sights ++ new) := by rw [before, sentTo_append, sent]

theorem Wired.stays (h : Wired sights x) (c : ClientId) :
    Conveys (Table.find? x.wires c) [] [] (Table.find? x.wires c) := by
  cases found : Table.find? x.wires c with
  | none => exact .absent
  | some u =>
    obtain ⟨w, rfl, -⟩ := h.conduit found
    exact .passes (.refl w)

/-- Whoever has no connection is sent nothing. -/
theorem packetsTo_unlinked (absent : Table.find? x.wires c = none)
    {es : List Effect} (linked : ∀ p, .deliver c p ∈ es → x.links c p = .ok ()) :
    packetsTo c es = [] := by
  refine List.eq_nil_iff_forall_not_mem.2 fun p member => ?_
  have reached := linked p (mem_packetsTo.1 member)
  simp [links, absent] at reached

/-- What the broker does to a connection, if it delivers over open links only. -/
theorem Wired.conveys_apply (h : Wired sights x) {z : Exchange σ} (same : z.wires = x.wires)
    {o : Broker.Outcome} (linked : ∀ p, .deliver c p ∈ o.2 → x.links c p = .ok ()) :
    Conveys (Table.find? x.wires c) (packetsTo c o.2) [] (Table.find? (z.apply o).wires c) := by
  cases found : Table.find? x.wires c with
  | none =>
    rw [apply_absent (same ▸ found) o, packetsTo_unlinked found linked]
    exact .absent
  | some u =>
    obtain ⟨w, rfl, -⟩ := h.conduit found
    obtain ⟨v, there, passes, -⟩ := apply_conduit (same ▸ found) o
    rw [there]
    exact .passes passes

theorem Turned.conveys (h : Wired sights x) (turned : Turned x new y) (c : ClientId) :
    Conveys (Table.find? x.wires c) (sentTo c new) (readBy c new) (Table.find? y.wires c) := by
  cases turned with
  | attach capacity =>
    simp only [Exchange.attach, Table.find?_append, Table.find?_cons, Table.find?_nil]
    by_cases fresh : x.nextClient = c
    · have absent := h.fresh c (Nat.le_of_eq fresh)
      rw [if_pos fresh, absent]
      exact .attached capacity
    · rw [if_neg fresh, Option.or_none]
      exact h.stays c
  | @link d w v out wires signals found others passes =>
    have sent : sentTo c (out.map (.received d)) = [] := by simp [sentTo, packetsTo]
    dsimp only
    rw [others, sent, readBy_received]
    by_cases here : d = c
    · subst here
      rw [if_pos rfl, if_pos rfl, found]
      exact .passes passes
    · rw [if_neg here, if_neg here]
      exact h.stays c
  | idle now registry => exact h.stays c
  | @hear b e rest broker popped =>
    obtain ⟨_, same, plain⟩ := h.broker
    cases broker.symm.trans same
    have sent : sentTo c [.heard b e (b.handle x.links true e).2] =
        packetsTo c (b.handle x.links true e).2 := by simp [sentTo, Sight.done]
    rw [sent]
    exact h.conveys_apply (z := { x with events := rest }) rfl fun p delivered =>
      plain.handle_linked h.carries delivered
  | @answer b r rest broker popped =>
    obtain ⟨_, same, plain⟩ := h.broker
    cases broker.symm.trans same
    have sent : sentTo c [.answered b r (b.deliverReply x.links r).2] =
        packetsTo c (b.deliverReply x.links r).2 := by simp [sentTo, Sight.done]
    rw [sent]
    exact h.conveys_apply (z := { x with replies := rest }) rfl fun p delivered =>
      plain.sendAll_linked h.carries delivered
  | @take r rest m popped moved =>
    have read : readBy c (.took r :: m.replies.map .emitted) = [] := readBy_emitted c m.replies
    have sent : sentTo c (.took r :: m.replies.map .emitted) = [] := by
      simp [sentTo, Sight.done, packetsTo]
    rw [read, sent]
    exact h.stays c
  | @work l m own moved =>
    have sent : sentTo c (m.replies.map .emitted) = [] := by simp [sentTo, packetsTo]
    rw [readBy_emitted, sent]
    exact h.stays c

/-! ## All runs -/

theorem wired_start (registry : Registry σ) : Wired [] (start registry) where
  running := ⟨rfl, rfl⟩
  broker := ⟨.init, rfl, Broker.plain_init⟩
  fresh _ _ := rfl
  lines _ := .absent rfl rfl

theorem Turned.running (h : Wired sights x) (turned : Turned x new y) :
    y.machine.stopping = false ∧ y.machine.halted = false := by
  obtain ⟨stopping, halted⟩ := h.running
  cases turned with
  | attach | link | idle => exact ⟨stopping, halted⟩
  | @hear b e rest broker popped =>
    rw [(apply_touches _ _).machine]
    exact ⟨stopping, halted⟩
  | answer broker popped =>
    rw [(apply_touches _ _).machine]
    exact ⟨stopping, halted⟩
  | @take r rest m popped moved =>
    have goes : Machine.Move.request r ≠ .stop := nofun
    change m.stopping = false ∧ m.halted = false
    exact Machine.running_of_move goes stopping halted moved
  | @work l m own moved =>
    have goes : l ≠ .stop := by
      rintro rfl
      cases own
    change m.stopping = false ∧ m.halted = false
    exact Machine.running_of_move goes stopping halted moved

theorem Turned.plain (h : Wired sights x) (turned : Turned x new y) :
    ∃ b, y.broker = some b ∧ b.Plain := by
  obtain ⟨b, broker, plain⟩ := h.broker
  cases turned with
  | attach | link | idle | take | work => exact ⟨b, broker, plain⟩
  | @hear _ e rest same popped =>
    cases broker.symm.trans same
    rw [(apply_touches _ _).broker]
    exact ⟨_, rfl, plain.handle h.carries e⟩
  | answer same popped =>
    cases broker.symm.trans same
    rw [(apply_touches _ _).broker]
    exact ⟨_, rfl, plain.deliverReply h.carries _⟩

theorem Turned.fresh (h : Wired sights x) (turned : Turned x new y) (c : ClientId)
    (unused : y.nextClient ≤ c) : Table.find? y.wires c = none := by
  cases turned with
  | attach capacity =>
    have later : x.nextClient + 1 ≤ c := unused
    have apart : x.nextClient ≠ c := Nat.ne_of_lt later
    have absent := h.fresh c (Nat.le_of_succ_le later)
    simp [Exchange.attach, Table.find?_append, Table.find?_cons, apart, absent]
  | @link d w v out wires signals found others passes =>
    have absent := h.fresh c unused
    dsimp only
    rw [others, if_neg, absent]
    rintro rfl
    rw [absent] at found
    cases found
  | idle | take | work => exact h.fresh c unused
  | @hear b e rest broker popped =>
    rw [(apply_touches _ _).nextClient] at unused
    exact apply_absent (z := { x with events := rest }) (h.fresh c unused) _
  | @answer b r rest broker popped =>
    rw [(apply_touches _ _).nextClient] at unused
    exact apply_absent (z := { x with replies := rest }) (h.fresh c unused) _

theorem Turned.wired (h : Wired sights x) (turned : Turned x new y) : Wired (sights ++ new) y where
  running := turned.running h
  broker := turned.plain h
  fresh := turned.fresh h
  lines c := (h.lines c).next (turned.conveys h c) rfl rfl

/-- A client that keeps its connection has read what it was sent, up to what is on its way. -/
theorem Run.wired (run : Run sights x) : Wired sights x := by
  induction run with
  | start registry => exact wired_start registry
  | turn t before step ih => exact (turned_of_turn ih step).wired ih

end Patchbay.Exchange
