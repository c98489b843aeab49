import Patchbay.Proofs.Machine.Calls

/-!
# Deleting a component

A delete cuts an instance off at once: no later request reaches it, and a name that comes back is the
name of another one. What is left of the instance then runs down by its own moves alone. The calls
that it had not begun are refused one by one, its teardown hook runs behind everything else that
happens to it, and only then is the delete answered.
-/

namespace Patchbay

variable {σ : Type}

/-! ## Running down -/

/-- How many moves are left at most for an instance that is closed: for each waiting call one to
refuse it and one to tell its end. -/
def Instance.remaining (i : Instance σ) : Nat :=
  2 * i.mailbox.length +
    match i.phase with
    | .ended => 0
    | .closing => 1
    | .idle | .drained _ => 2
    | .answered _ => 3
    | .driving _ d => if d.found.isSome then 5 else 4
    | .begun _ _ => 5
    | .taken _ => 6

theorem InstanceStep.remaining_lt {i next : Instance σ} {rs : List Reply}
    (step : InstanceStep true i rs next) : next.remaining < i.remaining := by
  unfold Instance.remaining
  cases step with
  | take phase isOpen | start phase isOpen => cases isOpen
  | close phase | refuse f phase | answer phase | resume phase | reopen phase | tearDown phase =>
    simp [phase]
  | stream s now phase => simp [phase, Drive.start]
  | drive phase paid found =>
    obtain ⟨before, after⟩ := found rfl
    simp [phase, before, after]
  | finish phase paid =>
    simp only [phase]
    split <;> omega
  | drain phase queue =>
    simp only [phase, queue, List.length_cons]
    omega

namespace Machine

variable {registry : Registry σ} {m k n : Machine σ} {l : Move}
  {es past later : List (Occurrence σ)} {id : Nat} {i j : Instance σ} {call : MethodCall}

/-- A closed instance that has not ended can move at any time. -/
theorem stepInstance_of_closed (found : Table.find? m.instances id = some i)
    (closed : m.isClosed i = true) (running : i.phase.hasEnded = false) (now : Nat) :
    ∃ k, m.stepInstance? id now = some k := by
  unfold stepInstance?
  simp only [found, Option.bind_eq_bind, Option.bind_some]
  cases phase : i.phase with
  | idle => simp [closed]
  | taken call => simp
  | begun call method => simp
  | driving t d =>
    simp only [closed, Bool.true_or]
    have moves : d.advance t true now ≠ .waiting := by
      unfold Drive.advance
      split
      · next e found =>
        cases e <;> simp [Drive.act, Drive.failWith]
      · simp [Drive.failWith]
    split
    · next waits => exact absurd waits moves
    · exact ⟨_, rfl⟩
    · exact ⟨_, rfl⟩
  | answered key => simp
  | closing => simp
  | drained key => simp
  | ended => simp [phase, Phase.hasEnded] at running

/-! ## Moves behind a delete -/

/-- Of an instance that is deleted only its own moves change anything. -/
theorem Shift.of_deleted (shift : Shift m l k id i es j) (run : Run (init registry) past m)
    (found : Table.find? m.instances id = some i) (deleted : i.deleted = true) :
    j.deleted = true ∧ (∀ call, .queued id call ∉ es) ∧
      (l.holder? ≠ some (.instance id) → j = i) := by
  have unnamed (name : String) : Table.find? m.live name ≠ some id := by
    intro named
    obtain ⟨x, there, -, kept⟩ := run.named named
    cases there.symm.trans found
    rw [deleted] at kept
    cases kept
  cases shift with
  | rest others silent => exact ⟨deleted, fun call member => silent _ member rfl, fun _ => rfl⟩
  | mark asks named effects => exact absurd named (unnamed _)
  | queue asks named accepts serial replies effects => exact absurd named (unnamed _)
  | work moves worked replies effects =>
    refine ⟨worked.deleted.trans deleted, fun call member => ?_, fun other => absurd moves other⟩
    simp [effects, Instance.mem_effects] at member

/-- What a run behind a delete leaves of the instance: it stays deleted, no call is queued on it, and
what was not begun is never begun. -/
theorem Run.of_deleted (whole : Run (init registry) past k)
    (found : Table.find? k.instances id = some i) (deleted : i.deleted = true)
    (run : Run k later n) :
    ∃ j, Table.find? n.instances id = some j ∧ j.deleted = true ∧
      (∀ call, .queued id call ∉ later) ∧
      ∀ call, .queued id call ∈ past → ¬ Started past id i call →
        Unstarted (past ++ later) n j call := by
  induction run with
  | refl =>
    refine ⟨i, found, deleted, by simp, fun call queued fresh => ?_⟩
    rw [List.append_nil]
    exact (whole.stage found queued).resolve_left fresh
  | @move es n k l before step ih =>
    obtain ⟨x, there, gone, unqueued, unstarted⟩ := ih
    have prior := whole.trans before
    have change := move_change step
    obtain ⟨y, here, shift⟩ := change.shift prior.orderly.tidy there
    obtain ⟨still, silent, -⟩ := shift.of_deleted prior there gone
    refine ⟨y, here, still, fun call queued => ?_, fun call queued fresh => ?_⟩
    · rcases List.mem_append.1 queued with old | new
      · exact unqueued call old
      · exact silent call ((mem_occurrences change rfl).1 new)
    · rw [← List.append_assoc]
      have known : .queued id call ∈ past ++ es := List.mem_append_left _ queued
      rcases (unstarted call queued fresh).shift prior step there known shift with kept | begins
      · exact kept
      · have closed : n.isClosed x = true := by simp [isClosed, gone]
        rw [closed] at begins
        exact absurd begins.1 (by decide)
  | exchange other before ih =>
    obtain ⟨x, there, gone, unqueued, unstarted⟩ := ih
    exact ⟨x, there, gone, unqueued, fun call queued fresh =>
      ⟨(unstarted call queued fresh).silent, (unstarted call queued fresh).stands⟩⟩

theorem Run.serial_le (run : Run m es n) : m.serial ≤ n.serial := by
  induction run with
  | refl => exact Nat.le_refl _
  | move l before step ih =>
    rw [(move_moved step).serial]
    omega
  | exchange other before ih => exact ih

/-- A name that was free and is in use again was defined meanwhile, for an instance that was not
there before. -/
theorem Run.redefined (tidy : k.Tidy k.serial) {name : String}
    (free : Table.find? k.live name = none) (run : Run k later n)
    (named : Table.find? n.live name = some id) :
    Table.find? k.instances id = none ∧
      ∃ component, .defined id name component ∈ later := by
  induction run generalizing id with
  | refl =>
    rw [free] at named
    cases named
  | @move es n k' l before step ih =>
    have change := move_change step
    have earlier (old : Table.find? n.live name = some id) :
        Table.find? k.instances id = none ∧
          ∃ component, .defined id name component ∈ es ++ n.occurrences l k' := by
      obtain ⟨absent, component, defined⟩ := ih old
      exact ⟨absent, component, List.mem_append_left _ defined⟩
    generalize effects : n.effects l = fs at change
    cases change with
    | nothing others instances live => exact earlier (live name id named)
    | @define _ made component asks instances live =>
      rw [live, Table.find?_put] at named
      split at named
      · next same =>
        cases named
        subst same
        refine ⟨?_, component, List.mem_append_right _ ?_⟩
        · cases there : Table.find? k.instances n.serial with
          | none => rfl
          | some x =>
            have member := List.mem_map_of_mem (f := Prod.fst) (Table.mem_of_find? there)
            have below := tidy.instances.below n.serial member
            have := before.serial_le
            omega
        · rw [mem_occurrences (move_change step) rfl, effects]
          exact List.mem_singleton_self _
      · exact earlier named
    | delete asks deleted instances live =>
      rw [live, Table.find?_erase] at named
      split at named
      · cases named
      · exact earlier named
    | queue asks known there accepts serial instances live replies =>
      rw [live] at named
      exact earlier named
    | work moves there worked instances live replies =>
      rw [live] at named
      exact earlier named
  | exchange other before ih => exact ih named

/-! ## The answer to a delete -/

/-- Only its own move takes a waiter away. -/
theorem waiters_of_move {w : Waiter} (step : m.move? l = some k)
    (other : l.holder? ≠ some (.waiter id)) (found : Table.find? m.waiters id = some w) :
    Table.find? k.waiters id = some w := by
  cases l with
  | request r =>
    have moved := m.handle_moved r
    rw [handle_of_request step] at moved
    generalize asked : [r] = requests at moved
    cases moved with
    | execute move =>
      cases move with
      | deleting known =>
        rw [Table.find?_append, found]
        rfl
      | _ => exact found
    | cancel => exact found
    | _ => cases asked
  | trip | stop | halt | notice =>
    obtain ⟨n, -, rfl⟩ := upkeep_of_move rfl step
    exact found
  | task number now => cases stepTask_move step <;> exact found
  | «instance» number now =>
    cases stepInstance_move step
    exact found
  | waiter number =>
    cases stepWaiter_move step
    have apart : number ≠ id := by
      intro same
      subst same
      exact other rfl
    rw [Table.find?_erase, if_neg apart, found]

/-- A new reply is one more reply to its request. -/
theorem repliesTo_of_new {r : Reply} (step : m.move? l = some k)
    (new : r ∈ k.replies.drop m.replies.length) : k.repliesTo r.serial ≠ m.repliesTo r.serial := by
  obtain ⟨rs, replies, -⟩ := replies_of_move step
  rw [replies, List.drop_left] at new
  intro same
  rw [repliesTo, replies, Ledger.repliesTo_append] at same
  have none : Ledger.repliesTo rs r.serial = [] := List.append_right_eq_self.1 same
  have one : r ∈ Ledger.repliesTo rs r.serial := by simp [Ledger.repliesTo, new]
  rw [none] at one
  cases one

theorem repliesTo_of_first {r : Reply} {number : Nat} (silent : m.repliesTo number = [])
    (replies : k.replies = m.replies ++ [r]) (serial : r.serial = number) :
    k.repliesTo number = [r] := by
  have one : Ledger.repliesTo [r] number = [r] := Ledger.repliesTo_eq_self (by simp [serial])
  rw [repliesTo, replies, Ledger.repliesTo_append, one]
  exact congrArg (· ++ [r]) silent

/-- Of a delete that waits, either nothing was said yet, or it was answered once, and then the
instance has ended. -/
def Awaits (n : Machine σ) (t : Ticket) (id : Nat) (j : Instance σ) : Prop :=
  Table.find? n.waiters t.serial = some ⟨t, id⟩ ∧ n.repliesTo t.serial = [] ∨
    n.repliesTo t.serial = [t.done .null] ∧ j.phase.hasEnded

/-- How a waiting delete is answered: by its waiter's move, when the instance has ended. -/
theorem Awaits.move {t : Ticket} {origin : ClientId} {target : Target} {packet : Packet}
    (awaits : Awaits m t id i) (run : Run (init registry) past m)
    (handled : (requestsIn past)[t.serial]? = some (.execute origin target packet))
    (found : Table.find? m.instances id = some i) (step : m.move? l = some k) :
    k.repliesTo t.serial = m.repliesTo t.serial ∧
        (Table.find? m.waiters t.serial = some ⟨t, id⟩ →
          Table.find? k.waiters t.serial = some ⟨t, id⟩) ∨
      l = .waiter t.serial ∧ i.phase.hasEnded ∧ m.repliesTo t.serial = [] ∧
        k.replies = m.replies ++ [t.done .null] := by
  rcases awaits with ⟨waits, unanswered⟩ | ⟨answered, ended⟩
  · by_cases mover : l.holder? = some (.waiter t.serial)
    · cases l with
      | waiter number =>
        cases mover
        have settled := stepWaiter_move step
        generalize number : t.serial = serial at settled waits
        cases settled with
        | settle there awaited ended =>
          cases there.symm.trans waits
          cases awaited.symm.trans found
          exact .inr ⟨rfl, ended, number ▸ unanswered, rfl⟩
      | _ => cases mover
    · have held : t ∈ m.heldAt (.waiter t.serial) := by
        rw [heldAt_waiter waits]
        exact Multiset.mem_singleton_self t
      exact .inl ⟨repliesTo_of_other run.orderly held mover step,
        fun _ => waiters_of_move step mover waits⟩
  · have last : (t.done .null).packet.isTerminal = true := by simp [Ticket.done, Ticket.reply]
    have sent : t.done .null ∈ m.repliesTo t.serial := by
      rw [answered]
      exact List.mem_singleton_self _
    refine .inl ⟨repliesTo_of_terminal run.orderly handled sent last step, fun waits => ?_⟩
    -- the ticket of an answered delete is held by nobody, so it has no waiter either
    have held : t ∈ m.heldAt (.waiter t.serial) := by
      rw [heldAt_waiter waits]
      exact Multiset.mem_singleton_self t
    exact absurd rfl (run.orderly.released handled sent last t
      (Multiset.mem_of_le (m.heldAt_le _) held))

/-- A request that was taken keeps its number. -/
theorem requestsIn_of_append {number : Nat} {r : Request}
    (asked : (requestsIn past)[number]? = some r) (es : List (Occurrence σ)) :
    (requestsIn (past ++ es))[number]? = some r := by
  have inside := (List.getElem?_eq_some_iff.1 asked).1
  rw [requestsIn, List.filterMap_append]
  exact (List.getElem?_append_left inside).trans asked

/-- No run adds to the replies that have a last one. -/
theorem Run.repliesTo_of_last {past : List (Occurrence σ)} (whole : Run (init registry) past m)
    {serial : Nat} {origin : ClientId} {target : Target} {packet : Packet}
    (handled : (requestsIn past)[serial]? = some (.execute origin target packet)) {r : Reply}
    (sent : r ∈ m.repliesTo serial) (last : r.packet.isTerminal = true) (since : Run m later n) :
    n.repliesTo serial = m.repliesTo serial := by
  induction since with
  | refl => rfl
  | @move es x k l before step ih =>
    have known := requestsIn_of_append handled es
    have still := repliesTo_of_terminal (whole.trans before).orderly known (ih ▸ sent) last step
    exact still.trans ih
  | exchange other before ih => exact ih

section

variable {t : Ticket} {origin : ClientId} {target : Target} {packet : Packet}

theorem Run.awaits (whole : Run (init registry) past k)
    (found : Table.find? k.instances id = some i) (deleted : i.deleted = true)
    (handled : (requestsIn past)[t.serial]? = some (.execute origin target packet))
    (waits : Table.find? k.waiters t.serial = some ⟨t, id⟩) (unanswered : k.repliesTo t.serial = [])
    (run : Run k later n) (here : Table.find? n.instances id = some j) : Awaits n t id j := by
  induction run generalizing j with
  | refl => exact .inl ⟨waits, unanswered⟩
  | @move es n k' l before step ih =>
    obtain ⟨x, there, gone, -, -⟩ := Run.of_deleted whole found deleted before
    have prior := whole.trans before
    have awaits := ih there
    have asked := requestsIn_of_append handled es
    rcases awaits.move prior asked there step with ⟨same, kept⟩ | ⟨-, ended, silent, replies⟩
    · rcases awaits with ⟨waiter, none⟩ | ⟨answered, ended⟩
      · exact .inl ⟨kept waiter, same.trans none⟩
      · have torn := (prior.tornDown_iff there).2 ended
        refine .inr ⟨same.trans answered, ?_⟩
        exact ((prior.move l step).tornDown_iff here).1 ((tornDown_append _ _ id).2 (.inl torn))
    · have torn := (prior.tornDown_iff there).2 ended
      exact .inr ⟨repliesTo_of_first silent replies rfl,
        ((prior.move l step).tornDown_iff here).1 ((tornDown_append _ _ id).2 (.inl torn))⟩
  | exchange other before ih => exact ih here

/-- An instance that has ended holds nothing. -/
theorem Tidy.held_of_ended {bound : Nat} (tidy : m.Tidy bound)
    (found : Table.find? m.instances id = some i) (ended : i.phase.hasEnded) : i.held = 0 := by
  have empty := tidy.drained id i found ended
  cases phase : i.phase with
  | ended =>
    rw [Instance.held_idle (by rw [phase]; rfl), empty]
    rfl
  | _ => simp [phase, Phase.hasEnded] at ended

/-- A delete is answered behind the teardown and behind the last reply of every call. -/
theorem Run.answer_last (whole : Run (init registry) past k)
    (found : Table.find? k.instances id = some i) (deleted : i.deleted = true)
    (handled : (requestsIn past)[t.serial]? = some (.execute origin target packet))
    (waits : Table.find? k.waiters t.serial = some ⟨t, id⟩) (unanswered : k.repliesTo t.serial = [])
    (run : Run k later n) {before after : List (Occurrence σ)} {r : Reply}
    (split : later = before ++ .sent r :: after) (serial : r.serial = t.serial) :
    r = t.done .null ∧ TornDown (past ++ before) id ∧
      ∀ call, .queued id call ∈ past → ∃ s, .sent s ∈ past ++ before ∧
        s.serial = call.ticket.serial ∧ s.packet.isTerminal = true := by
  generalize happens : Occurrence.sent r = o at split
  revert happens
  refine Run.always (P := fun before o => Occurrence.sent r = o → r = t.done .null ∧
    TornDown (past ++ before) id ∧ ∀ call, .queued id call ∈ past → ∃ s, .sent s ∈ past ++ before ∧
      s.serial = call.ticket.serial ∧ s.packet.isTerminal = true) ?_ run split
  intro es n k' l earlier step before o after here happens
  obtain ⟨x, there, -, -, -⟩ := Run.of_deleted whole found deleted earlier
  have prior := whole.trans earlier
  have new : r ∈ k'.replies.drop n.replies.length := by
    have member : .sent r ∈ n.occurrences l k' := by
      rw [here, happens]
      simp
    have effects : .sent r ∉ n.effects l := by
      intro touched
      obtain ⟨number, touches⟩ := (move_change step).touches _ touched
      cases touches
    rw [occurrences, List.mem_append, List.mem_append] at member
    rcases member with (asked | touched) | sent
    · simp at asked
    · exact absurd touched effects
    · obtain ⟨s, sent, same⟩ := List.mem_map.1 sent
      cases same
      exact sent
  have awaits := Run.awaits whole found deleted handled waits unanswered earlier there
  have asked := requestsIn_of_append handled es
  rcases awaits.move prior asked there step with ⟨same, -⟩ | ⟨-, ended, -, replies⟩
  · rw [← serial] at same
    exact absurd same (repliesTo_of_new step new)
  · rw [replies, List.drop_left, List.mem_singleton] at new
    have torn := (prior.tornDown_iff there).2 ended
    rw [← List.append_assoc]
    refine ⟨new, (tornDown_append _ _ id).2 (.inl torn), fun call queued => ?_⟩
    have settled := prior.settled there (List.mem_append_left es queued)
    rw [prior.orderly.tidy.held_of_ended there ended] at settled
    rcases settled with ⟨u, held, -⟩ | ⟨s, replied, terminal⟩
    · cases held
    · obtain ⟨sent, number⟩ := List.mem_filter.1 replied
      have told := (prior.sent_iff s).2 sent
      exact ⟨s, List.mem_append_left _ told, by simpa using number, terminal⟩

end

/-! ## Main result -/

/-- Taking a call refuses it, or queues it on the instance that has the name. -/
theorem move_call {origin : ClientId} {name method : String} {packet : Packet}
    (step : m.move? (.request (.execute origin (.method name method) packet)) = some k) :
    k.replies = m.replies ++ [(Ticket.issue m.serial origin (.method name method) packet).fail
        (.notFound "component" name)] ∧ k.instances = m.instances ∨
      ∃ id i, Table.find? m.live name = some id ∧ Table.find? m.instances id = some i ∧
        Table.find? k.instances id = some { i with
          mailbox := i.mailbox ++
            [⟨.issue m.serial origin (.method name method) packet, method, packet.args⟩] } := by
  obtain rfl := handle_of_request step
  simp only [handle, callMethod]
  cases known : (Table.find? m.live name).bind fun id =>
      (Table.find? m.instances id).map fun i => (id, i) with
  | none => exact .inl ⟨rfl, rfl⟩
  | some entry =>
    obtain ⟨id, named, there⟩ := Option.bind_eq_some_iff.1 known
    obtain ⟨i, found, rfl⟩ := Option.map_eq_some_iff.1 there
    dsimp only
    split
    · refine .inr ⟨id, i, named, found, ?_⟩
      rw [Table.find?_modify, found, Option.map_some, if_pos rfl]
      rfl
    · exact .inl ⟨rfl, rfl⟩

/-- What has become of the component `name` that a delete with the ticket `t` took away. The delete
left the machine `k`, in which the instance of the component, number `id`, was `i`; `past` is what
happened until then, `later` what has happened since. Now the machine is `n` and the instance `j`. -/
structure Retired (past : List (Occurrence σ)) (k : Machine σ) (i : Instance σ)
    (later : List (Occurrence σ)) (n : Machine σ) (j : Instance σ) (name : String) (id : Nat)
    (t : Ticket) : Prop where
  /-- The instance is there, and no move but its own changes it. -/
  untouched : Table.find? n.instances id = some j ∧ ∀ l n', n.move? l = some n' →
    l.holder? ≠ some (.instance id) → Table.find? n'.instances id = some j
  /-- No call was queued on it since. -/
  uncalled : ∀ call, .queued id call ∉ later
  /-- A call that comes next is refused, or queued on another instance, which was defined since and is
  in the state that its factory made and its own calls changed. -/
  rerouted : ∀ origin method packet n',
    n.move? (.request (.execute origin (.method name method) packet)) = some n' →
    n'.replies = n.replies ++ [(Ticket.issue n.serial origin (.method name method) packet).fail
        (.notFound "component" name)] ∧ n'.instances = n.instances ∨
      ∃ fresh component x, fresh ≠ id ∧ Table.find? k.instances fresh = none ∧
        .defined fresh name component ∈ later ∧ Table.find? n.instances fresh = some x ∧
        x.component = component.ranAll (bodies fresh later) ∧
        Table.find? n'.instances fresh = some { x with
          mailbox := x.mailbox ++
            [⟨.issue n.serial origin (.method name method) packet, method, packet.args⟩] }
  /-- A call that was not started at the delete never runs: it waits, and no longer than the instance
  lasts, or a failure is all it got. -/
  unstarted : ∀ call, .queued id call ∈ past → ¬ Started past id i call →
    Unstarted (past ++ later) n j call ∧
      (j.phase.hasEnded → ∃ f, n.repliesTo call.ticket.serial = [call.ticket.fail f])
  /-- The teardown hook ran if the instance has ended, once, and nothing happened to it since; what
  all hooks wrote is all of the log. -/
  tornDown : (TornDown (past ++ later) id ↔ j.phase.hasEnded) ∧
    (∀ before component after, past ++ later = before ++ .toreDown id component :: after →
      ¬ TornDown before id ∧ ∀ o ∈ after, o.instance? ≠ some id) ∧
    n.log = (past ++ later).flatMap Occurrence.lines
  /-- The delete was answered behind the teardown and behind the last reply of every call. -/
  ordered : ∀ before r after, later = before ++ .sent r :: after → r.serial = t.serial →
    r = t.done .null ∧ TornDown (past ++ before) id ∧
      ∀ call, .queued id call ∈ past → ∃ s, .sent s ∈ past ++ before ∧
        s.serial = call.ticket.serial ∧ s.packet.isTerminal = true
  /-- Until the instance has ended it can move at any time, and each move brings it nearer its end. -/
  progress : j.phase.hasEnded = false → ∀ now, ∃ n' next,
    n.move? (.instance id now) = some n' ∧ Table.find? n'.instances id = some next ∧
      next.remaining < j.remaining
  /-- The delete has its one reply, or can have it as soon as the instance has ended. -/
  answered : n.repliesTo t.serial = [t.done .null] ∨ n.repliesTo t.serial = [] ∧
    (j.phase.hasEnded → ∃ n', n.move? (.waiter t.serial) = some n' ∧
      n'.repliesTo t.serial = [t.done .null])

/-- What a delete of a component in use does at once. -/
theorem move_delete {origin : ClientId} {name : String} {packet : Packet}
    (run : Run (init registry) es m) (named : Table.find? m.live name = some id)
    (step : m.move? (.request (.execute origin (.component name) packet)) = some k) :
    ∃ i, Table.find? k.instances id = some i ∧ i.deleted = true ∧
      Table.find? k.live name = none ∧
      Table.find? k.waiters m.serial =
        some ⟨.issue m.serial origin (.component name) packet, id⟩ ∧
      k.repliesTo m.serial = [] := by
  obtain ⟨i, found, -, -⟩ := run.named named
  have orderly := run.orderly
  obtain rfl := handle_of_request step
  simp only [handle, deleteComponent, named]
  have vacant : Table.find? m.waiters m.serial = none := by
    cases there : Table.find? m.waiters m.serial with
    | none => rfl
    | some w =>
      have member := List.mem_map_of_mem (f := Prod.fst) (Table.mem_of_find? there)
      exact absurd (orderly.tidy.waiters.below _ member) (Nat.lt_irrefl _)
  refine ⟨{ i with deleted := true }, ?_, rfl, ?_, ?_, ?_⟩
  · rw [Table.find?_modify, found, Option.map_some, if_pos rfl]
  · rw [Table.find?_erase, if_pos rfl]
  · rw [Table.find?_append, vacant, Option.none_or, Table.find?_cons, if_pos rfl]
    rfl
  · apply Ledger.repliesTo_eq_nil
    intro r sent same
    have below := orderly.sound.replied r sent
    have number := orderly.number
    simp only [ledger] at below
    omega

/-- Deleting a component is final and ordered, in every run and at every moment behind the delete. -/
theorem delete_retires {before : List (Occurrence σ)} {origin : ClientId} {name : String}
    {packet : Packet} (run : Run (init registry) before m)
    (named : Table.find? m.live name = some id)
    (handled : m.move? (.request (.execute origin (.component name) packet)) = some k)
    (since : Run k later n) :
    ∃ i j, Table.find? k.instances id = some i ∧
      Retired (before ++ m.occurrences (.request (.execute origin (.component name) packet)) k) k i
        later n j name id (.issue m.serial origin (.component name) packet) := by
  obtain ⟨i, found, deleted, free, waits, unanswered⟩ := move_delete run named handled
  have whole := run.move _ handled
  generalize occurrences : m.occurrences _ k = delete at whole
  have asked : (requestsIn (before ++ delete))[m.serial]? =
      some (.execute origin (.component name) packet) := by
    rw [← occurrences, requestsIn, List.filterMap_append]
    have now := requestsIn_occurrences (move_change handled)
    unfold requestsIn at now
    rw [now, ← run.orderly.number]
    exact List.getElem?_concat_length
  obtain ⟨j, here, gone, uncalled, unstarted⟩ := Run.of_deleted whole found deleted since
  have all := whole.trans since
  have awaits := Run.awaits (t := .issue m.serial origin (.component name) packet) whole found
    deleted asked waits unanswered since here
  refine ⟨i, j, found, ?_⟩
  constructor
  case untouched =>
    refine ⟨here, fun l n' step other => ?_⟩
    obtain ⟨y, there, shift⟩ := (move_change step).shift all.orderly.tidy here
    obtain ⟨-, -, same⟩ := shift.of_deleted all here gone
    rw [there, same other]
  case uncalled => exact uncalled
  case rerouted =>
    intro origin method packet n' step
    rcases move_call step with refused | ⟨fresh, x, known, there, queued⟩
    · exact .inl refused
    · obtain ⟨absent, component, defined⟩ := Run.redefined whole.orderly.tidy free since known
      have apart : fresh ≠ id := by
        intro same
        rw [same, found] at absent
        cases absent
      have unknown : bodies fresh (before ++ delete) = [] := by
        apply bodies_eq_nil
        intro o member touches
        obtain ⟨y, old⟩ := whole.known member touches
        rw [absent] at old
        cases old
      have state := (all.state there (List.mem_append_right _ defined)).2
      rw [bodies_append, unknown, List.nil_append] at state
      exact .inr ⟨fresh, component, x, apart, absent, defined, there, state, queued⟩
  case unstarted =>
    intro call queued fresh
    have stage := unstarted call queued fresh
    refine ⟨stage, fun ended => ?_⟩
    rcases stage.stands with ⟨waiting, -⟩ | failed
    · have held := Instance.held_of_waiting waiting
      rw [all.orderly.tidy.held_of_ended here ended] at held
      cases held
    · exact failed
  case tornDown =>
    exact ⟨all.tornDown_iff here, fun _ _ _ split => all.toreDown_last split, all.log⟩
  case ordered =>
    intro front r rest split serial
    exact Run.answer_last whole found deleted asked waits unanswered since split serial
  case progress =>
    intro running now
    have closed : n.isClosed j = true := by simp [isClosed, gone]
    obtain ⟨n', step⟩ := stepInstance_of_closed here closed running now
    cases stepInstance_move step with
    | @work x next rs notices there worked =>
      cases there.symm.trans here
      rw [closed] at worked
      refine ⟨_, next, step, ?_, worked.remaining_lt⟩
      rw [Table.find?_put, if_pos rfl]
  case answered =>
    rcases awaits with ⟨waiter, silent⟩ | ⟨answered, -⟩
    · refine .inr ⟨silent, fun ended => ?_⟩
      have phase : j.phase = .ended := by
        cases phase : j.phase with
        | ended => rfl
        | _ => simp [phase, Phase.hasEnded] at ended
      obtain ⟨n', step, replies⟩ : ∃ n', n.stepWaiter? m.serial = some n' ∧ n'.replies =
          n.replies ++ [(Ticket.issue m.serial origin (.component name) packet).done .null] := by
        unfold stepWaiter?
        have mine : Table.find? n.waiters m.serial = _ := waiter
        simp only [mine, here, Option.bind_eq_bind, Option.bind_some, phase]
        exact ⟨_, rfl, rfl⟩
      exact ⟨n', step, repliesTo_of_first silent replies rfl⟩
    · exact .inl answered

theorem run_of_after? {moves : List Move} (made : m.after? moves = some k) :
    ∃ es, Run m es k := by
  suffices further : ∀ {es : List (Occurrence σ)} {n : Machine σ}, Run m es n →
      n.after? moves = some k → ∃ es, Run m es k from further .refl made
  clear made
  intro es n run made
  induction moves generalizing es n with
  | nil =>
    obtain rfl : n = k := by simpa [after?] using made
    exact ⟨es, run⟩
  | cons l rest ih =>
    obtain ⟨x, step, made⟩ := Option.bind_eq_some_iff.1 made
    exact ih (run.move l step) made

/-- A registry with one component type: a count, which also streams without ever yielding anything,
and says when it is torn down. -/
def countRegistry : Registry Nat :=
  ⟨[], [("count", ⟨"demo", fun _ => .ok ⟨0,
    [("add", .instant fun n _ => (.ok .null, n + 1)),
      ("watch", .streaming fun n _ => (.ok ⟨fun _ => .never⟩, n))],
    fun _ => ["gone"]⟩⟩)]⟩

/-- A call that runs when the delete comes, and one that is queued behind it. -/
def movesBefore : List Move :=
  [.request (.execute 1 (.componentType "count") (.defineComponent "a" "count" "c" .null)),
    .request (.execute 1 (.method "c" "watch") (.callMethod "b" "c" "watch" .null)),
    .instance 0 0, .instance 0 0, .instance 0 0,
    .request (.execute 2 (.method "c" "add") (.callMethod "d" "c" "add" .null))]

/-- The name comes back and is called, and the deleted instance runs down. -/
def movesSince : List Move :=
  [.request (.execute 2 (.componentType "count") (.defineComponent "f" "count" "c" .null)),
    .request (.execute 2 (.method "c" "add") (.callMethod "g" "c" "add" .null)),
    .instance 0 0, .instance 0 0, .instance 0 0, .instance 0 0, .instance 0 0, .instance 0 0,
    .waiter 3]

theorem delete_retires_count :
    ∃ (before later : List (Occurrence Nat)) (m k n : Machine Nat) (i j : Instance Nat),
      Run (init countRegistry) before m ∧ Table.find? m.live "c" = some 0 ∧
      m.move? (.request (.execute 1 (.component "c") (.deleteComponent "e" "c"))) = some k ∧
      Run k later n ∧ n.log = ["gone"] ∧ (n.repliesTo 3).length = 1 ∧
      Retired (before ++ m.occurrences
        (.request (.execute 1 (.component "c") (.deleteComponent "e" "c"))) k) k i later n j "c" 0
        (.issue 3 1 (.component "c") (.deleteComponent "e" "c")) := by
  obtain ⟨m, k, n, first, named, handled, second, log, replied⟩ : ∃ m k n : Machine Nat,
      (init countRegistry).after? movesBefore = some m ∧ Table.find? m.live "c" = some 0 ∧
      m.move? (.request (.execute 1 (.component "c") (.deleteComponent "e" "c"))) = some k ∧
      k.after? movesSince = some n ∧ n.log = ["gone"] ∧ (n.repliesTo 3).length = 1 :=
    ⟨_, _, _, rfl, rfl, rfl, rfl, rfl, rfl⟩
  obtain ⟨before, run⟩ := run_of_after? first
  obtain ⟨later, since⟩ := run_of_after? second
  have serial : m.serial = 3 := by
    cases first
    rfl
  obtain ⟨i, j, -, retired⟩ := delete_retires run named handled since
  rw [serial] at retired
  exact ⟨before, later, m, k, n, i, j, run, named, handled, since, log, replied, retired⟩

end Machine

end Patchbay
