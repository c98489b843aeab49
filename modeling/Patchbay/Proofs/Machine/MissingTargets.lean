import Patchbay.Proofs.Machine.Definitions

/-!
# Calls of what there is not

A call of an unknown function or component is answered at once and leaves nothing else behind. A call of
an unknown method is known to be one only when its component gets to it: it waits its turn, its answer
comes from the move that takes it up, and no body ever runs for it.
-/

namespace Patchbay

variable {σ : Type}

/-- What an instance is, apart from its calls. -/
def Instance.standing (i : Instance σ) : String × Component σ × Bool :=
  (i.name, i.component, i.deleted)

/-- A reply to a waiting call comes from an instance that has just taken it, or that is closing and has
it first in its mailbox. -/
theorem InstanceStep.answers {closed : Bool} {i next : Instance σ} {rs : List Reply}
    (step : InstanceStep closed i rs next)
    (apart : ∀ {t u : Ticket}, {t} + {u} ≤ i.held → t.serial ≠ u.serial) {call : MethodCall}
    (waits : call ∈ i.waiting) {r : Reply} (sent : r ∈ rs) (serial : r.serial = call.ticket.serial) :
    i.phase = .taken call ∨ i.phase = .closing ∧ ∃ rest, i.mailbox = call :: rest := by
  have behind {t : Ticket} (current : i.phase.ticket? = some t) (queued : call ∈ i.mailbox)
      (own : r.serial = t.serial) : False :=
    apart (Instance.held_behind current queued) (own.symm.trans serial)
  cases step with
  | close | take | start | stream | resume | reopen | tearDown => cases sent
  | @refuse taken f phase =>
    rw [Instance.waiting, phase] at waits
    rcases List.mem_cons.1 waits with rfl | queued
    · exact .inl phase
    · have own : r.serial = taken.ticket.serial := by
        rw [List.mem_singleton.1 sent]
        rfl
      exact (behind (by rw [phase]; rfl) queued own).elim
  | @answer ran method reply phase last =>
    rw [Instance.waiting, phase] at waits
    have own : r.serial = ran.ticket.serial := List.mem_singleton.1 sent ▸ last.serial
    exact (behind (by rw [phase]; rfl) waits own).elim
  | @drive t _ _ _ _ phase paid =>
    rw [Instance.waiting, phase] at waits
    exact (behind (by rw [phase]; rfl) waits (paid.serial.1 r sent)).elim
  | @finish t _ _ phase paid =>
    rw [Instance.waiting, phase] at waits
    exact (behind (by rw [phase]; rfl) waits (paid.serial.1 r sent)).elim
  | @drain first rest phase queue =>
    rw [Instance.waiting, phase, queue] at waits
    rcases List.mem_cons.1 waits with rfl | queued
    · exact .inr ⟨phase, rest, queue⟩
    · have both : {first.ticket} + {call.ticket} ≤ i.held := by
        have ticket : call.ticket ∈ queuedTickets rest := by
          simpa [queuedTickets] using ⟨call, queued, rfl⟩
        rw [Instance.held_idle (by rw [phase]; rfl), queue, queuedTickets_cons]
        exact add_le_add (le_refl _) (Multiset.singleton_le.2 ticket)
      have own : r.serial = first.ticket.serial := by
        rw [List.mem_singleton.1 sent]
        rfl
      exact absurd (own.symm.trans serial) (apart both)

namespace Machine

variable {registry : Registry σ} {m k n : Machine σ} {l : Move}
  {es past later : List (Occurrence σ)} {id now : Nat} {i j : Instance σ} {call : MethodCall}
  {name method : String} {packet : Packet} {origin : ClientId}

/-! ## What stays -/

/-- The names in use, the registry, and every instance but for its calls are as they were. -/
structure Unaffected (m k : Machine σ) : Prop where
  live : k.live = m.live
  registry : k.registry = m.registry
  standing : ∀ id, (Table.find? k.instances id).map Instance.standing =
    (Table.find? m.instances id).map Instance.standing

theorem registry_of_move (step : m.move? l = some k) : k.registry = m.registry := by
  have moved := move_moved step
  generalize l.asked = asked at moved
  cases moved with
  | execute move => cases move <;> rfl
  | cancel => rfl
  | upkeep => rfl
  | task move => cases move <;> rfl
  | «instance» move =>
    cases move
    rfl
  | waiter move =>
    cases move
    rfl

/-- An instance that runs no body affects nothing. -/
theorem unaffected_of_step (step : m.move? (.instance id now) = some k)
    (found : Table.find? m.instances id = some i)
    (bodiless : ∀ call method, i.phase ≠ .begun call method) : Unaffected m k := by
  refine ⟨?_, registry_of_move step, fun other => ?_⟩
  · cases stepInstance_move step
    rfl
  · cases stepInstance_move step with
    | @work x next rs notices there worked =>
      cases there.symm.trans found
      have component : next.component = i.component := by
        cases worked with
        | answer phase | stream _ _ phase => exact absurd phase (bodiless _ _)
        | _ => rfl
      rw [Table.find?_put]
      split
      · next same =>
        rw [← same, found, Option.map_some, Option.map_some, Instance.standing, Instance.standing,
          component, worked.name, worked.deleted]
      · rfl

/-! ## Calls that are refused at once -/

theorem handle_function_missing (missing : m.registry.function? name = none) :
    m.handle (.execute origin (.function name) packet) =
      m.refuse (.issue m.serial origin (.function name) packet) (.notFound "function" name) := by
  simp only [handle, callFunction, missing]
  rfl

theorem handle_method_missing (missing : name ∉ Table.keys m.live) :
    m.handle (.execute origin (.method name method) packet) =
      m.refuse (.issue m.serial origin (.method name method) packet) (.notFound "component" name) := by
  simp only [handle, callMethod, Table.find?_eq_none_iff.2 missing]
  rfl

/-- The component of a name in use does not take calls any more while the machine stops. -/
theorem handle_method_closed (named : Table.find? m.live name = some id)
    (found : Table.find? m.instances id = some i) (closed : i.phase.accepts = false) :
    m.handle (.execute origin (.method name method) packet) =
      { m.refuse (.issue m.serial origin (.method name method) packet)
          (.notFound "component" name) with
        inflight := Table.erase m.inflight (origin, packet.tx) } := by
  simp only [handle, callMethod, named, found, Option.bind_some, Option.map_some, closed]
  rfl

/-- The machine behind a call that is queued. -/
def afterQueue (m : Machine σ) (id : Nat) (call : MethodCall) : Machine σ :=
  { m with
    serial := m.serial + 1
    inflight := Table.put m.inflight call.ticket.key call.ticket.serial
    instances := Table.modify m.instances id fun i => { i with mailbox := i.mailbox ++ [call] } }

theorem handle_method_queued (named : Table.find? m.live name = some id)
    (found : Table.find? m.instances id = some i) (accepts : i.phase.accepts = true) :
    m.handle (.execute origin (.method name method) packet) =
      m.afterQueue id ⟨.issue m.serial origin (.method name method) packet, method, packet.args⟩ := by
  simp only [handle, callMethod, named, found, Option.bind_some, Option.map_some, accepts]
  rfl

theorem unaffected_afterQueue (m : Machine σ) (id : Nat) (call : MethodCall) :
    Unaffected m (m.afterQueue id call) := by
  refine ⟨rfl, rfl, fun other => ?_⟩
  rw [afterQueue, Table.find?_modify, Option.map_map]
  congr 1
  funext i
  simp only [Function.comp]
  split <;> rfl

/-! ## Calls of unknown methods -/

theorem Run.apart (run : Run (init registry) es m) (found : Table.find? m.instances id = some i)
    {t u : Ticket} (both : {t} + {u} ≤ i.held) : t.serial ≠ u.serial :=
  run.orderly.sound.apart (both.trans (heldAt_instance found ▸ m.heldAt_le (.instance id)))

/-- An instance that answers a waiting call has just taken it, or refuses it because it is closing. -/
theorem place_of_answer (step : m.stepInstance? id now = some k)
    (found : Table.find? m.instances id = some i)
    (apart : ∀ {t u : Ticket}, {t} + {u} ≤ i.held → t.serial ≠ u.serial) (waits : call ∈ i.waiting)
    (answer : k.repliesTo call.ticket.serial ≠ m.repliesTo call.ticket.serial) :
    i.phase = .taken call ∨ i.phase = .closing ∧ ∃ rest, i.mailbox = call :: rest := by
  cases stepInstance_move step with
  | @work x next rs notices there worked =>
    cases there.symm.trans found
    by_contra elsewhere
    apply answer
    have others : Ledger.repliesTo rs call.ticket.serial = [] :=
      Ledger.repliesTo_eq_nil fun r sent serial =>
        elsewhere (worked.answers apart waits sent serial)
    rw [repliesTo, Ledger.repliesTo_append, others, List.append_nil]
    rfl

/-- A waiting call of an unknown method that is answered is told what is missing. -/
theorem stepInstance_unknown (step : m.stepInstance? id now = some k)
    (found : Table.find? m.instances id = some i)
    (apart : ∀ {t u : Ticket}, {t} + {u} ≤ i.held → t.serial ≠ u.serial)
    (unknown : Table.find? i.component.methods call.method = none) (waits : call ∈ i.waiting)
    (silent : m.repliesTo call.ticket.serial = [])
    (answer : k.repliesTo call.ticket.serial ≠ m.repliesTo call.ticket.serial) :
    k.repliesTo call.ticket.serial =
        [call.ticket.fail (.notFound "method" (i.name ++ "." ++ call.method))] ∨
      k.repliesTo call.ticket.serial = [call.ticket.fail (.notFound "component" i.name)] := by
  rcases place_of_answer step found apart waits answer with taken | ⟨closing, rest, queue⟩
  · left
    simp only [stepInstance?, found, Option.bind_eq_bind, Option.bind_some, taken,
      Option.some.injEq, invoke, unknown] at step
    subst step
    exact repliesTo_of_first silent rfl rfl
  · right
    simp only [stepInstance?, found, Option.bind_eq_bind, Option.bind_some, closing,
      Option.some.injEq, drain, queue] at step
    subst step
    exact repliesTo_of_first silent rfl rfl

/-- A call that was not started is answered only while it waits, by a move of its instance. -/
theorem Unstarted.answered_by_instance (unstarted : Unstarted es m i call)
    (run : Run (init registry) es m) (found : Table.find? m.instances id = some i)
    (queued : .queued id call ∈ es) (step : m.move? l = some k)
    (answer : k.repliesTo call.ticket.serial ≠ m.repliesTo call.ticket.serial) :
    (∃ now, l = .instance id now) ∧ call ∈ i.waiting ∧ m.repliesTo call.ticket.serial = [] := by
  rcases unstarted.stands with ⟨waits, silent⟩ | ⟨f, answered⟩
  · have held : call.ticket ∈ m.heldAt (.instance id) := by
      rw [heldAt_instance found]
      exact Instance.held_of_waiting waits
    refine ⟨instance_of_holder ?_, waits, silent⟩
    by_contra other
    exact answer (repliesTo_of_other run.orderly held other step)
  · obtain ⟨origin, target, packet, asked⟩ := run.owed queued
    have last : (call.ticket.fail f).packet.isTerminal = true := by
      simp [Ticket.fail, Ticket.reply]
    have sent : call.ticket.fail f ∈ m.repliesTo call.ticket.serial :=
      answered ▸ List.mem_singleton_self _
    exact absurd (repliesTo_of_terminal run.orderly asked sent last step) answer

/-- Answering a call that was not started affects nothing. -/
theorem Unstarted.answer_unaffected (unstarted : Unstarted es m i call)
    (run : Run (init registry) es m) (found : Table.find? m.instances id = some i)
    (queued : .queued id call ∈ es) (step : m.move? l = some k)
    (answer : k.repliesTo call.ticket.serial ≠ m.repliesTo call.ticket.serial) :
    Unaffected m k := by
  obtain ⟨⟨now, rfl⟩, waits, -⟩ := unstarted.answered_by_instance run found queued step answer
  refine unaffected_of_step step found fun other body begun => ?_
  have place := place_of_answer step found (run.apart found) waits answer
  rw [begun] at place
  rcases place with same | ⟨same, -⟩ <;> cases same

/-- Where a call of an unknown method stands, in whatever run follows. -/
theorem Run.unknown_method (whole : Run (init registry) past k)
    (found : Table.find? k.instances id = some i) (queued : .queued id call ∈ past)
    (fresh : ¬ Started past id i call)
    (unknown : Table.find? i.component.methods call.method = none)
    (silent : k.repliesTo call.ticket.serial = []) (since : Run k later n) :
    ∃ j, Table.find? n.instances id = some j ∧ j.name = i.name ∧
      Table.find? j.component.methods call.method = none ∧
      (n.repliesTo call.ticket.serial = [] ∨
        n.repliesTo call.ticket.serial =
          [call.ticket.fail (.notFound "method" (i.name ++ "." ++ call.method))] ∨
        n.repliesTo call.ticket.serial = [call.ticket.fail (.notFound "component" i.name)]) := by
  induction since with
  | refl => exact ⟨i, found, rfl, unknown, .inl silent⟩
  | @move es n n' l before step ih =>
    obtain ⟨x, there, title, lacks, replies⟩ := ih
    obtain ⟨y, same, -, unstarted⟩ := Run.of_barred whole found queued fresh (.inl unknown) before
    cases same.symm.trans there
    have prior := whole.trans before
    obtain ⟨j, here, shift⟩ := (move_change step).shift prior.orderly.tidy there
    refine ⟨j, here, shift.name.trans title, shift.methods ▸ lacks, ?_⟩
    by_cases same : n'.repliesTo call.ticket.serial = n.repliesTo call.ticket.serial
    · rw [same]
      exact replies
    · obtain ⟨⟨now, rfl⟩, waits, unanswered⟩ :=
        unstarted.answered_by_instance prior there (List.mem_append_left es queued) step same
      rw [← title]
      exact .inr (stepInstance_unknown step there (prior.apart there) lacks waits unanswered same)
  | exchange other before ih => exact ih

/-- Nothing was said to the request that comes next. -/
theorem Orderly.next_silent {asked : List Request} (orderly : m.Orderly asked) :
    m.repliesTo m.serial = [] := by
  apply Ledger.repliesTo_eq_nil
  intro r sent same
  have below := orderly.sound.replied r sent
  have number := orderly.number
  simp only [ledger] at below
  omega

/-- What taking a call with the ticket `t` leads to when the component `name` lacks the method. -/
structure UnknownMethodTaken (m : Machine σ) (t : Ticket) (name method : String) (k : Machine σ) :
    Prop where
  /-- It is queued, and affects nothing. -/
  queued : Unaffected m k
  /-- No body ever runs for it. -/
  unrun : ∀ later n, Run k later n → ∀ id (call : MethodCall) body, .ran id call body ∈ later →
    call.ticket.serial ≠ t.serial
  /-- Its one reply is that the method is missing, or the component once that is closed. -/
  replies : ∀ later n, Run k later n → n.repliesTo t.serial = [] ∨
    n.repliesTo t.serial = [t.fail (.notFound "method" (name ++ "." ++ method))] ∨
    n.repliesTo t.serial = [t.fail (.notFound "component" name)]
  /-- The move that sends it affects nothing either. -/
  answered : ∀ later n, Run k later n → ∀ l n', n.move? l = some n' →
    n'.repliesTo t.serial ≠ n.repliesTo t.serial → Unaffected n n'

/-- A call that has just been queued was not started. -/
theorem Run.fresh (run : Run (init registry) es m) (found : Table.find? m.instances id = some i)
    (serial : call.ticket.serial = m.serial) (effects : m.effects l = [.queued id call])
    (step : m.move? l = some k) :
    ¬ Started (es ++ m.occurrences l k) id { i with mailbox := i.mailbox ++ [call] } call := by
  rintro ⟨body, ran | begun⟩
  · rcases List.mem_append.1 ran with old | new
    · have := run.ran_lt old
      omega
    · rw [mem_occurrences (move_change step) rfl, effects] at new
      cases List.mem_singleton.1 new
  · have held := Multiset.mem_of_le (m.heldAt_le _) (heldAt_of_begun (i := i) found begun)
    have below := run.orderly.sound.serial_lt (l := m.ledger _) held
    have number := run.orderly.number
    simp only [ledger] at below
    omega

theorem unknown_method_taken (run : Run (init registry) es m)
    (named : Table.find? m.live name = some id) (found : Table.find? m.instances id = some i)
    (accepts : i.phase.accepts = true) (unknown : Table.find? i.component.methods method = none)
    (step : m.move? (.request (.execute origin (.method name method) packet)) = some k) :
    UnknownMethodTaken m (.issue m.serial origin (.method name method) packet) name method k := by
  generalize call : MethodCall.mk (.issue m.serial origin (.method name method) packet) method
    packet.args = c
  have made : k = m.afterQueue id c :=
    call ▸ (move_request_iff.1 step).2.symm.trans (handle_method_queued named found accepts)
  have effects : m.effects (.request (.execute origin (.method name method) packet)) =
      [.queued id c] := by
    simp [Machine.effects, requestEffects, named, found, accepts, call]
  have serial : c.ticket.serial = m.serial := call ▸ rfl
  have title : i.name = name := by
    obtain ⟨x, there, title, -⟩ := run.named named
    cases there.symm.trans found
    exact title
  have whole := run.move _ step
  have fresh := run.fresh found serial effects step
  have queued : .queued id c ∈ es ++ m.occurrences
      (.request (.execute origin (.method name method) packet)) k := by
    refine List.mem_append_right _ ?_
    rw [mem_occurrences (move_change step) rfl, effects]
    exact List.mem_singleton_self _
  have here : Table.find? k.instances id = some { i with mailbox := i.mailbox ++ [c] } := by
    rw [made, afterQueue, Table.find?_modify, found, Option.map_some, if_pos rfl]
  have lacks : Table.find? i.component.methods c.method = none := call ▸ unknown
  have silent : k.repliesTo c.ticket.serial = [] := by
    rw [made, serial]
    exact run.orderly.next_silent
  constructor
  case queued => exact made ▸ unaffected_afterQueue m id c
  case unrun =>
    intro later n since other begun body ran
    obtain ⟨x, -, -, unstarted⟩ := Run.of_barred whole here queued fresh (.inl lacks) since
    subst call
    exact unstarted.silent other begun body (List.mem_append_right _ ran)
  case replies =>
    intro later n since
    obtain ⟨x, -, -, -, replies⟩ := whole.unknown_method here queued fresh lacks silent since
    subst call
    rw [title] at replies
    exact replies
  case answered =>
    intro later n since l n' next answer
    obtain ⟨x, there, -, unstarted⟩ := Run.of_barred whole here queued fresh (.inl lacks) since
    subst call
    exact unstarted.answer_unaffected (whole.trans since) there (List.mem_append_left later queued) next
      answer

end Machine

end Patchbay
