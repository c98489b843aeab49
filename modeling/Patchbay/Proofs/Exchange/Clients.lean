import Patchbay.Proofs.Exchange.Accounts

/-!
# Clients of an exchange

Clients are numbered in the order in which they attach, and nobody hears of one before. A client that
keeps its connection is not hung up on: once the broker knows it, it stays known.
-/

namespace Patchbay

/-- Whom an event is about. -/
def Event.client : Event → ClientId
  | .accepted c | .packet c _ | .closed c => c

namespace Exchange

variable {σ : Type} {x y : Exchange σ} {c : ClientId} {sights new : List Sight} {b : Broker}

/-- A client has a connection, which neither side has given up. -/
def Keeps (x : Exchange σ) (c : ClientId) : Prop :=
  ∃ w, Table.find? x.wires c = some (.conduit w) ∧ w.keeps = true

/-- Whatever the broker does, a client that keeps its connection had it before and is not hung up on. -/
theorem keeps_of_apply (h : Wired sights x) {z : Exchange σ} (same : z.wires = x.wires)
    {o : Broker.Outcome} (kept : (z.apply o).Keeps c) : x.Keeps c ∧ .hangUp c ∉ o.2 := by
  obtain ⟨v, there, kept⟩ := kept
  cases found : Table.find? x.wires c with
  | none =>
    rw [apply_absent (same ▸ found) o] at there
    cases there
  | some u =>
    obtain ⟨w, rfl, -⟩ := h.conduit found
    obtain ⟨v', here, passes, ended⟩ := apply_conduit (same ▸ found) o
    cases here.symm.trans there
    refine ⟨⟨w, found, passes.kept kept⟩, fun gone => ?_⟩
    rw [ended gone] at kept
    cases kept

/-- A connection that is kept was kept before, unless it is new. -/
theorem Turned.keeps (h : Wired sights x) (turned : Turned x new y) (kept : y.Keeps c) :
    (x.Keeps c ∧ .hangUp c ∉ new.flatMap Sight.done) ∨ (c = x.nextClient ∧ new = []) := by
  cases turned with
  | attach capacity =>
    obtain ⟨v, there, kept⟩ := kept
    simp only [Exchange.attach, Table.find?_append, Table.find?_cons, Table.find?_nil] at there
    by_cases fresh : x.nextClient = c
    · exact .inr ⟨fresh.symm, rfl⟩
    · rw [if_neg fresh, Option.or_none] at there
      exact .inl ⟨⟨v, there, kept⟩, by simp⟩
  | @link d w v out wires signals found others passes =>
    obtain ⟨u, there, kept⟩ := kept
    dsimp only at there
    rw [others] at there
    refine .inl ⟨?_, by simp⟩
    by_cases here : d = c
    · subst here
      rw [if_pos rfl] at there
      cases there
      exact ⟨w, found, passes.kept kept⟩
    · rw [if_neg here] at there
      exact ⟨u, there, kept⟩
  | idle now registry => exact .inl ⟨kept, by simp⟩
  | @hear b e rest broker popped =>
    have before := keeps_of_apply h (z := { x with events := rest }) rfl kept
    refine .inl ?_
    simpa [Sight.done] using before
  | @answer b r rest broker popped =>
    have before := keeps_of_apply h (z := { x with replies := rest }) rfl kept
    refine .inl ?_
    simpa [Sight.done] using before
  | take popped moved => exact .inl ⟨kept, by simp [Sight.done]⟩
  | work own moved => exact .inl ⟨kept, by simp⟩

/-! ## Numbers -/

/-- Whoever is known, and whomever an event is about, was given a number. -/
structure Numbers (x : Exchange σ) : Prop where
  events : ∀ e ∈ x.events.toList, e.client < x.nextClient
  known : ∀ b, x.broker = some b → ∀ c, Table.has b.clients c → c < x.nextClient

theorem numbers_start (registry : Registry σ) : Numbers (start registry) where
  events := by simp [start]
  known b broker c known := by
    cases broker
    cases known

theorem Turned.nextClient_le (turned : Turned x new y) : x.nextClient ≤ y.nextClient := by
  cases turned with
  | attach capacity => exact Nat.le_succ x.nextClient
  | link | idle | take | work => exact Nat.le_refl x.nextClient
  | hear broker popped =>
    rw [(apply_touches _ _).nextClient]
  | answer broker popped =>
    rw [(apply_touches _ _).nextClient]

theorem Turned.numbers (wired : Wired sights x) (h : Numbers x) (turned : Turned x new y) :
    Numbers y := by
  cases turned with
  | attach capacity =>
    refine ⟨fun e member => ?_, fun b broker c known => ?_⟩
    · simp only [Exchange.attach, Queue.toList_push, List.mem_append, List.mem_singleton] at member
      rcases member with old | rfl
      · exact Nat.lt_succ_of_lt (h.events e old)
      · exact Nat.lt_succ_self x.nextClient
    · exact Nat.lt_succ_of_lt (h.known b broker c known)
  | @link d w v out wires signals found others passes =>
    refine ⟨fun e member => ?_, h.known⟩
    simp only [Queue.toList_pushAll, List.mem_append, List.mem_map] at member
    rcases member with old | ⟨signal, -, rfl⟩
    · exact h.events e old
    · have numbered : d < x.nextClient := by
        refine Nat.lt_of_not_le fun unused => ?_
        rw [wired.fresh d unused] at found
        cases found
      cases signal with
      | packet p => exact numbered
      | closed => exact numbered
  | idle | take | work => exact ⟨h.events, h.known⟩
  | @hear b e rest broker popped =>
    have queue := Queue.toList_of_pop? popped
    have touches := apply_touches { x with events := rest } (b.handle x.links true e)
    refine ⟨fun d member => ?_, fun b' same c known => ?_⟩
    · rw [touches.events] at member
      rw [touches.nextClient]
      exact h.events d (queue ▸ List.mem_cons_of_mem e member)
    · rw [touches.nextClient]
      rw [touches.broker] at same
      cases same
      rcases Broker.known_of_handle known with before | rfl
      · exact h.known b broker c before
      · exact h.events (.accepted c) (queue ▸ List.mem_cons_self)
  | @answer b r rest broker popped =>
    have touches := apply_touches { x with replies := rest } (b.deliverReply x.links r)
    refine ⟨fun d member => ?_, fun b' same c known => ?_⟩
    · rw [touches.events] at member
      rw [touches.nextClient]
      exact h.events d member
    · rw [touches.nextClient]
      rw [touches.broker] at same
      cases same
      exact h.known b broker c (Broker.known_of_sendAll known)

theorem Run.numbers (run : Run sights x) : Numbers x := by
  induction run with
  | start registry => exact numbers_start registry
  | turn t before step ih => exact (turned_of_turn before.wired step).numbers before.wired ih

/-! ## Staying known -/

/-- A client that keeps its connection stays known through a turn. -/
theorem Turned.stays_known (h : Wired sights x) (turned : Turned x new y) (kept : y.Keeps c)
    (old : c < x.nextClient) (known : ∀ b, x.broker = some b → Table.has b.clients c) :
    ∀ b, y.broker = some b → Table.has b.clients c := by
  obtain ⟨-, unhung⟩ | ⟨rfl, -⟩ := turned.keeps h kept
  · cases turned with
    | attach | link | idle | take | work => exact known
    | @hear b e rest broker popped =>
      have touches := apply_touches { x with events := rest } (b.handle x.links true e)
      intro b' same
      rw [touches.broker] at same
      cases same
      apply (Broker.handle_keeps _).known (known b broker)
      simpa [Sight.done] using unhung
    | @answer b r rest broker popped =>
      have touches := apply_touches { x with replies := rest } (b.deliverReply x.links r)
      intro b' same
      rw [touches.broker] at same
      cases same
      apply (Broker.sendAll_keeps _).known (known b broker)
      simpa [Sight.done, Broker.deliverReply] using unhung
  · exact absurd old (Nat.lt_irrefl _)

/-- What the broker asks for a client, it asks when it hears it of a client that it knows. -/
theorem Turned.asks (turned : Turned x new y) {r : Request} (asked : r ∈ asksOf new) :
    ∃ b e rest, x.broker = some b ∧ x.events.pop? = some (e, rest) ∧ b.ask? e = some r := by
  cases turned with
  | attach | idle => simp [asksOf, Patchbay.requests] at asked
  | link signals found others passes => simp [asksOf, Patchbay.requests] at asked
  | @hear b e rest broker popped =>
    have same : asksOf [.heard b e (b.handle x.links true e).2] = (b.ask? e).toList := by
      simp [asksOf, Sight.done, Broker.requests_handle]
    rw [same, Option.mem_toList] at asked
    exact ⟨b, e, rest, broker, popped, asked⟩
  | @answer b r rest broker popped =>
    have none : asksOf [.answered b r (b.deliverReply x.links r).2] = [] := by
      simp [asksOf, Sight.done, Broker.deliverReply, Broker.requests_sendAll]
    rw [none] at asked
    cases asked
  | take popped moved => simp [asksOf, Sight.done, Patchbay.requests] at asked
  | work own moved => simp [asksOf, Patchbay.requests] at asked

/-- A client that asked for an execute has a number, and is known while it keeps its connection. -/
theorem Run.asker (run : Run sights x) {t : Target} {p : Packet}
    (asked : .execute c t p ∈ asksOf sights) :
    c < x.nextClient ∧ (x.Keeps c → ∀ b, x.broker = some b → Table.has b.clients c) := by
  induction run with
  | start registry => cases asked
  | @turn sights new x y turn before step ih =>
    have turned := turned_of_turn before.wired step
    -- Either it had asked before, or the broker knows it now.
    have here : c < x.nextClient ∧
        (x.Keeps c → ∀ b, x.broker = some b → Table.has b.clients c) := by
      rw [asksOf_append, List.mem_append] at asked
      rcases asked with old | now
      · exact ih old
      · obtain ⟨b, e, rest, broker, popped, asks⟩ := turned.asks now
        have known : Table.has b.clients c := by
          cases e with
          | accepted d => cases asks
          | closed d => cases asks
          | packet d q =>
            obtain ⟨connected, found, asks⟩ := Option.bind_eq_some_iff.1 asks
            split at asks
            · cases asks
              exact Option.isSome_iff_exists.2 ⟨connected, found⟩
            · cases asks
            · cases asks
        refine ⟨before.numbers.known b broker c known, fun _ b' same => ?_⟩
        cases broker.symm.trans same
        exact known
    refine ⟨Nat.lt_of_lt_of_le here.1 turned.nextClient_le, fun kept => ?_⟩
    apply turned.stays_known before.wired kept here.1
    obtain ⟨keeps, -⟩ | ⟨rfl, -⟩ := turned.keeps before.wired kept
    · exact here.2 keeps
    · exact absurd here.1 (Nat.lt_irrefl _)

/-- An output that the broker has or had answers an execute that the broker asked for. -/
theorem Run.execute_of_output (run : Run sights x) {r : Reply} (sent : r ∈ emissions sights)
    (type : r.packet.type = .respondExecute) :
    ∃ t p, (taken sights)[r.serial]? = some (.execute r.origin t p) ∧ r.target = some t ∧
      r.packet.tx = p.tx ∧ .execute r.origin t p ∈ asksOf sights := by
  obtain ⟨m, history, replies⟩ := run.history
  obtain ⟨t, p, took, target, tx⟩ := history.execute_of_output (replies ▸ sent) type
  refine ⟨t, p, took, target, tx, ?_⟩
  rw [run.accounts.asked]
  exact List.mem_append_left _ (List.mem_of_getElem? took)

/-! ## Whom the broker knows when it passes on a reply -/

/-- A reply that is seen to be passed on is the oldest that waits. -/
theorem Turned.passes_on (turned : Turned x new y) {r : Reply} {done : List Effect}
    (seen : .answered b r done ∈ new) :
    new = [.answered b r done] ∧ done = (b.deliverReply x.links r).2 ∧ x.broker = some b ∧
      ∃ rest, x.replies.pop? = some (r, rest) := by
  cases turned with
  | attach | idle => cases seen
  | link | take | work => simp at seen
  | hear broker popped => simp at seen
  | @answer b' r' rest broker popped =>
    cases List.mem_singleton.1 seen
    exact ⟨rfl, rfl, broker, rest, popped⟩

/-- Whenever the broker passed on a reply, it was in order, and knew only clients with a number. -/
theorem Run.passing (run : Run sights x) {r : Reply} {done : List Effect}
    (seen : .answered b r done ∈ sights) :
    r ∈ passedOn sights ∧ b.Plain ∧ ∀ c, Table.has b.clients c → c < x.nextClient := by
  induction run with
  | start registry => cases seen
  | @turn sights new x y turn before step ih =>
    have turned := turned_of_turn before.wired step
    rcases List.mem_append.1 seen with old | now
    · obtain ⟨passed, plain, numbered⟩ := ih old
      refine ⟨by simp [passed], plain, fun c known => ?_⟩
      exact Nat.lt_of_lt_of_le (numbered c known) turned.nextClient_le
    · have passed : r ∈ passedOn new := List.mem_filterMap.2 ⟨_, now, rfl⟩
      obtain ⟨-, -, broker, -⟩ := turned.passes_on now
      obtain ⟨_, same, plain⟩ := before.wired.broker
      cases broker.symm.trans same
      refine ⟨by simp [passed], plain, fun c known => ?_⟩
      exact Nat.lt_of_lt_of_le (before.numbers.known b broker c known) turned.nextClient_le

/-- A client that keeps its connection is known whenever the broker passes on one of its outputs. -/
theorem Run.owner_known (run : Run sights x) {r : Reply} {done : List Effect}
    (seen : .answered b r done ∈ sights) (type : r.packet.type = .respondExecute)
    (kept : x.Keeps r.origin) : Table.has b.clients r.origin := by
  induction run with
  | start registry => cases seen
  | @turn sights new x y turn before step ih =>
    have turned := turned_of_turn before.wired step
    have keeps := turned.keeps before.wired kept
    have said := before.accounts.said
    rcases List.mem_append.1 seen with old | now
    · rcases keeps with ⟨keeps, -⟩ | ⟨fresh, -⟩
      · exact ih old keeps
      · have sent : r ∈ emissions sights := by
          rw [said]
          exact List.mem_append_left _ (before.passing old).1
        obtain ⟨t, p, -, -, -, asked⟩ := before.execute_of_output sent type
        exact absurd (before.asker asked).1 (fresh ▸ Nat.lt_irrefl _)
    · obtain ⟨alone, -, broker, rest, popped⟩ := turned.passes_on now
      have sent : r ∈ emissions sights := by
        rw [said, Queue.toList_of_pop? popped]
        simp
      obtain ⟨t, p, -, -, -, asked⟩ := before.execute_of_output sent type
      rcases keeps with ⟨keeps, -⟩ | ⟨-, none⟩
      · exact (before.asker asked).2 keeps b broker
      · rw [none] at alone
        cases alone

end Exchange

end Patchbay
