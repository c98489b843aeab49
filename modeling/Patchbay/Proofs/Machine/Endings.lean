import Patchbay.Proofs.Packets
import Patchbay.Proofs.Machine.Cancelling
import Patchbay.Proofs.Machine.Serving

/-!
# How cancelled calls end

What a call ends with that is cancelled is decided by where it stands. One that was not begun ends as
cancelled, unless its component has no method of its name, which is reported all the same. A body that
has begun runs: an instant result is the result, and a stream that is opened ends as cancelled. Of a
stream under way, an end or a failure that was found is acted on.

No move changes what a cancelled call will end with, unless the machine stops or the component of the
call is deleted; and a call that is being served ends within two moves.
-/

namespace Patchbay

variable {σ : Type}

/-! ## What is decided -/

/-- What a stream under way ends with. -/
def Drive.ending (d : Drive) : Except Fault Value :=
  match d.found with
  | some (.fault f) => .error f
  | some .finished => .ok (d.held.getD .null)
  | some (.value _) | none => .error .cancelled

/-- What a body ends with that opens a stream, or fails to. -/
def endingOf : Except Fault Stream → Except Fault Value
  | .ok _ => .error .cancelled
  | .error f => .error f

def Operator.ending : Operator → Value → Except Fault Value
  | .instant run, args => run args
  | .streaming run, args => endingOf (run args)

def Method.ending : Method σ → σ → Value → Except Fault Value
  | .instant run, s, args => (run s args).1
  | .streaming run, s, args => endingOf (run s args).1

def Work.ending? : Work → Option (Except Fault Value)
  | .start _ _ => some (.error .cancelled)
  | .begun op args => some (op.ending args)
  | .drive d => some d.ending
  | .answered => none

/-- What a call ends with that an instance has not begun. -/
def Instance.ending (i : Instance σ) (call : MethodCall) : Except Fault Value :=
  match Table.find? i.component.methods call.method with
  | some _ => .error .cancelled
  | none => .error (.notFound "method" (i.name ++ "." ++ call.method))

/-- What the call with a number ends with, by its place at an instance. -/
inductive Instance.Ends (i : Instance σ) (serial : Nat) : Except Fault Value → Prop where
  | queued {call : MethodCall} (queued : call ∈ i.mailbox) (own : call.ticket.serial = serial) :
      Ends i serial (i.ending call)
  | taken {call : MethodCall} (phase : i.phase = .taken call) (own : call.ticket.serial = serial) :
      Ends i serial (i.ending call)
  | begun {call : MethodCall} {method : Method σ} (phase : i.phase = .begun call method)
      (own : call.ticket.serial = serial) :
      Ends i serial (method.ending i.component.state call.args)
  | driving {t : Ticket} {d : Drive} (phase : i.phase = .driving t d) (own : t.serial = serial) :
      Ends i serial d.ending

/-! ## How soon -/

/-- How many moves a stream under way takes to end when it is cancelled. -/
def Drive.pace (d : Drive) : Nat := if d.found.isSome then 2 else 1

def Work.pace : Work → Nat
  | .start _ _ => 1
  | .begun _ _ => 2
  | .drive d => d.pace
  | .answered => 0

def Phase.pace : Phase σ → Nat
  | .taken _ => 1
  | .begun _ _ => 2
  | .driving _ d => d.pace
  | _ => 0

/-! ## Streams -/

/-- A stream under way comes to this end, for the call with a number. -/
def Progress.EndsWith (serial : Nat) (result : Except Fault Value) : Progress → Prop
  | .waiting => False
  | .more _ t d => t.serial = serial ∧ d.ending = result
  | .ended rs => ∃ t : Ticket, t.serial = serial ∧ t.finish result ∈ rs

theorem Drive.flush_serial (d : Drive) (t : Ticket) : (d.flush t).2.serial = t.serial :=
  (d.flush_spend t).serial.2 _ (Multiset.mem_singleton_self _)

theorem Drive.failWith_ending (d : Drive) (t : Ticket) (f : Fault) :
    (d.failWith t f).EndsWith t.serial (.error f) :=
  ⟨(d.flush t).2, d.flush_serial t, List.mem_append_right _ (List.mem_singleton_self _)⟩

theorem Drive.advance_ending (d : Drive) (t : Ticket) (now : Nat) :
    (d.advance t true now).EndsWith t.serial d.ending := by
  unfold advance ending
  cases d.found with
  | none => exact d.failWith_ending t .cancelled
  | some e =>
    cases e with
    | value v => exact ⟨d.flush_serial t, rfl⟩
    | fault f => exact d.failWith_ending t f
    | finished => exact ⟨t, rfl, List.mem_singleton_self _⟩

/-- What holds a stream up. -/
theorem Drive.of_waiting {d : Drive} {t : Ticket} {cancelled : Bool} {now : Nat}
    (waits : d.advance t cancelled now = .waiting) :
    d.found = none ∧ cancelled = false ∧ d.arrived? now = none := by
  unfold advance at waits
  split at waits
  · next e found => cases e <;> cases waits
  · next found =>
    split at waits
    · cases waits
    · next going =>
      split at waits
      · cases waits
      · next absent => exact ⟨found, by simpa using going, absent⟩

theorem Drive.pace_le (d : Drive) : d.pace ≤ 2 := by
  unfold pace
  split <;> omega

theorem Drive.pace_of_advance {d e : Drive} {t next : Ticket} {now : Nat} {rs : List Reply}
    (more : d.advance t true now = .more rs next e) : e.pace < d.pace := by
  obtain ⟨before, after⟩ := found_of_advance more
  simp [pace, before, after]

namespace Machine

variable {registry : Registry σ} {m k n : Machine σ} {l : Move} {es past later : List (Occurrence σ)}
  {call : Call} {id now : Nat} {i j : Instance σ} {t : Ticket} {w : Work}
  {result : Except Fault Value}

/-- What a call ends with that is cancelled now. -/
inductive EndsWith (m : Machine σ) (call : Call) : Except Fault Value → Prop where
  | task {t : Ticket} {w : Work} {result : Except Fault Value} (host : call.host = none)
      (found : Table.find? m.tasks call.serial = some ⟨t, w⟩) (own : t.serial = call.serial)
      (ends : w.ending? = some result) : EndsWith m call result
  | «instance» {id : Nat} {i : Instance σ} {result : Except Fault Value} (host : call.host = some id)
      (found : Table.find? m.instances id = some i) (ends : i.Ends call.serial result) :
      EndsWith m call result

/-- The last reply to the call was sent, and it says this. -/
def EndedWith (m : Machine σ) (call : Call) (result : Except Fault Value) : Prop :=
  ∃ t : Ticket, t.serial = call.serial ∧ t.finish result ∈ m.replies

/-! ## The holder of the call moves -/

/-- The task of a cancelled call can move, and comes nearer to the end that is decided. -/
theorem stepTask_ending (found : Table.find? m.tasks id = some ⟨t, w⟩)
    (tripped : t.serial ∈ m.tripped) (ends : w.ending? = some result) (now : Nat) :
    ∃ k, m.stepTask? id now = some k ∧
      ((∃ u : Ticket, u.serial = t.serial ∧ u.finish result ∈ k.replies) ∨
        ∃ u x, Table.find? k.tasks id = some ⟨u, x⟩ ∧ u.serial = t.serial ∧
          x.ending? = some result ∧ x.pace < w.pace) := by
  have cancelled : m.isCancelled t = true := by simp [isCancelled, tripped]
  have said {rs : List Reply} (member : t.finish result ∈ rs) :
      ∃ u : Ticket, u.serial = t.serial ∧ u.finish result ∈ (m.endTask id t rs).replies :=
    ⟨t, rfl, List.mem_append_right _ member⟩
  unfold stepTask?
  simp only [found, Option.bind_eq_bind, Option.bind_some]
  cases w with
  | start op args =>
    cases ends
    refine ⟨_, rfl, .inl ?_⟩
    rw [startTask, if_pos cancelled]
    exact said (List.mem_singleton_self _)
  | begun op args =>
    cases ends
    cases op with
    | instant run => exact ⟨_, rfl, .inl (said (List.mem_singleton_self _))⟩
    | streaming run =>
      refine ⟨_, rfl, ?_⟩
      unfold runTask
      simp only [Operator.ending] at said ⊢
      cases opened : run args with
      | error f =>
        rw [opened] at said
        exact .inl (said (List.mem_singleton_self _))
      | ok stream =>
        refine .inr ⟨t, .drive (Drive.start stream now), ?_, rfl, rfl, Nat.lt_succ_self 1⟩
        simp [setWork, Table.find?_put]
  | drive d =>
    cases ends
    have comes := d.advance_ending t now
    rw [← cancelled] at comes
    simp only
    split
    · next waits =>
      rw [waits] at comes
      exact comes.elim
    · next rs u e more =>
      rw [more] at comes
      refine ⟨_, rfl, .inr ⟨u, .drive e, ?_, comes.1, congrArg some comes.2, ?_⟩⟩
      · simp [setWork, Table.find?_put]
      · rw [cancelled] at more
        exact Drive.pace_of_advance more
    · next rs ended =>
      rw [ended] at comes
      obtain ⟨u, own, sent⟩ := comes
      exact ⟨_, rfl, .inl ⟨u, own, List.mem_append_right _ sent⟩⟩
  | answered => cases ends

theorem find?_setInstance (m : Machine σ) (id : Nat) (i : Instance σ) :
    Table.find? (m.setInstance id i).instances id = some i := by
  rw [setInstance, Table.find?_put, if_pos rfl]

/-- So does the instance that is at a cancelled call. -/
theorem stepInstance_ending (found : Table.find? m.instances id = some i)
    (current : i.phase.ticket? = some t) (tripped : t.serial ∈ m.tripped)
    (ends : i.Ends t.serial result) (unqueued : ∀ call ∈ i.mailbox, call.ticket.serial ≠ t.serial)
    (now : Nat) :
    ∃ k, m.stepInstance? id now = some k ∧
      ((∃ u : Ticket, u.serial = t.serial ∧ u.finish result ∈ k.replies) ∨
        ∃ j u, Table.find? k.instances id = some j ∧ j.phase.ticket? = some u ∧
          u.serial = t.serial ∧ j.Ends t.serial result ∧ j.phase.pace < i.phase.pace) := by
  have cancelled : (m.isClosed i || m.isCancelled t) = true := by simp [isCancelled, tripped]
  have said {x : Instance σ} {rs : List Reply} {result : Except Fault Value} {u : Ticket}
      (own : u.serial = t.serial) (member : u.finish result ∈ rs) :
      ∃ u : Ticket, u.serial = t.serial ∧ u.finish result ∈ (m.endCall id x t rs).replies :=
    ⟨u, own, List.mem_append_right _ member⟩
  unfold stepInstance?
  simp only [found, Option.bind_eq_bind, Option.bind_some]
  cases ends with
  | queued queued own => exact absurd own (unqueued _ queued)
  | @taken call phase own =>
    rw [phase] at current
    cases current
    rw [phase]
    refine ⟨_, rfl, .inl ?_⟩
    unfold invoke Instance.ending
    cases known : Table.find? i.component.methods call.method with
    | none => exact said rfl (List.mem_singleton_self _)
    | some method =>
      dsimp only
      rw [if_pos cancelled]
      exact said rfl (List.mem_singleton_self _)
  | @begun call method phase own =>
    rw [phase] at current
    cases current
    rw [phase]
    refine ⟨_, rfl, ?_⟩
    cases method with
    | instant run => exact .inl (said rfl (List.mem_singleton_self _))
    | streaming run =>
      unfold perform
      simp only [Method.ending]
      cases opened : (run i.component.state call.args).1 with
      | error f => exact .inl (said rfl (List.mem_singleton_self _))
      | ok stream =>
        exact .inr ⟨_, call.ticket, m.find?_setInstance id _, rfl, rfl,
          .driving (d := Drive.start stream now) rfl rfl, Nat.lt_succ_self 1⟩
  | @driving u d phase own =>
    rw [phase] at current
    cases current
    have comes := d.advance_ending t now
    rw [← cancelled] at comes
    rw [phase]
    dsimp only
    split
    · next waits =>
      rw [waits] at comes
      exact comes.elim
    · next rs u e more =>
      rw [more] at comes
      have ends : Instance.Ends { i with phase := .driving u e } t.serial e.ending :=
        .driving rfl comes.1
      rw [comes.2] at ends
      rw [cancelled] at more
      exact ⟨_, rfl, .inr ⟨_, u, m.find?_setInstance id _, rfl, comes.1, ends,
        Drive.pace_of_advance more⟩⟩
    · next rs ended =>
      rw [ended] at comes
      obtain ⟨u, own, sent⟩ := comes
      exact ⟨_, rfl, .inl (said own sent)⟩

/-! ## Other moves -/

/-- Only its own move changes a task. -/
theorem tasks_of_move {task : Task} (step : m.move? l = some k)
    (other : l.holder? ≠ some (.task id)) (found : Table.find? m.tasks id = some task) :
    Table.find? k.tasks id = some task := by
  cases l with
  | request r =>
    have moved := m.handle_moved r
    rw [handle_of_request step] at moved
    generalize asked : [r] = requests at moved
    cases moved with
    | execute move =>
      cases move with
      | started op args =>
        rw [Table.find?_append, found]
        rfl
      | _ => exact found
    | cancel => exact found
    | _ => cases asked
  | trip | stop | halt | notice =>
    obtain ⟨n, -, rfl⟩ := upkeep_of_move rfl step
    exact found
  | task number now =>
    have apart : number ≠ id := by
      rintro rfl
      exact other rfl
    cases stepTask_move step with
    | work next there paid => rw [Table.find?_put, if_neg apart, found]
    | drop there answered => rw [Table.find?_erase, if_neg apart, found]
  | «instance» number now =>
    cases stepInstance_move step
    exact found
  | waiter number =>
    cases stepWaiter_move step
    exact found

end Machine

namespace Instance

variable {i j : Instance σ} {call : MethodCall} {rs : List Reply} {serial : Nat}
  {result : Except Fault Value}

theorem ending_congr (methods : j.component.methods = i.component.methods) (name : j.name = i.name)
    (call : MethodCall) : j.ending call = i.ending call := by
  rw [ending, ending, methods, name]

/-- An instance is at the call, or has it in its mailbox. -/
theorem Ends.served_or_queued {serial : Nat} (ends : i.Ends serial result) :
    (∃ t, i.phase.ticket? = some t ∧ t.serial = serial) ∨
      ∃ c ∈ i.mailbox, c.ticket.serial = serial ∧ result = i.ending c := by
  cases ends with
  | queued queued own => exact .inr ⟨_, queued, own, rfl⟩
  | taken phase own | begun phase own | driving phase own =>
    exact .inl ⟨_, by rw [phase]; rfl, own⟩

/-- A longer mailbox and a mark decide nothing. -/
theorem Ends.frame (ends : i.Ends serial result) (phase : j.phase = i.phase)
    (component : j.component = i.component) (name : j.name = i.name) (mailbox : i.mailbox ⊆ j.mailbox) :
    j.Ends serial result := by
  have same (call : MethodCall) : i.ending call = j.ending call :=
    ending_congr (congrArg Component.methods component.symm) name.symm call
  cases ends with
  | queued queued own => exact same _ ▸ .queued (mailbox queued) own
  | taken here own => exact same _ ▸ .taken (phase.trans here) own
  | begun here own => exact component ▸ .begun (phase.trans here) own
  | driving here own => exact .driving (phase.trans here) own

/-- A call that is queued stays so, or is taken. -/
theorem Ends.of_queued (queued : call ∈ i.mailbox) (accepts : i.phase.accepts = true)
    (step : InstanceStep false i rs j) : j.Ends call.ticket.serial (i.ending call) := by
  have methods : j.component.methods = i.component.methods := by
    cases step <;> rfl
  rw [← ending_congr methods step.name call]
  cases step with
  | close phase closed => cases closed
  | @take first rest phase isOpen queue =>
    rw [queue] at queued
    rcases List.mem_cons.1 queued with rfl | behind
    · exact .taken rfl rfl
    · exact .queued behind rfl
  | drain phase | reopen phase | tearDown phase =>
    rw [phase] at accepts
    cases accepts
  | _ => exact .queued queued rfl

end Instance

namespace Machine

variable {registry : Registry σ} {m k n : Machine σ} {l : Move} {es past later : List (Occurrence σ)}
  {call : Call} {id now : Nat} {i j : Instance σ} {t : Ticket} {w : Work}
  {result : Except Fault Value}

/-- Neither the machine stops nor is the component of the call deleted. -/
def Lasts (m : Machine σ) (call : Call) : Prop :=
  m.stopping = false ∧
    ∀ id i, call.host = some id → Table.find? m.instances id = some i → i.deleted = false

theorem Lasts.isClosed (lasts : m.Lasts call) (host : call.host = some id)
    (found : Table.find? m.instances id = some i) : m.isClosed i = false := by
  rw [Machine.isClosed, lasts.1, lasts.2 id i host found]
  rfl

theorem Lasts.before (lasts : k.Lasts call) (run : Run (init registry) es m)
    (step : m.move? l = some k) : m.Lasts call := by
  constructor
  · cases stops : m.stopping with
    | false => rfl
    | true => exact absurd ((flags_of_move step).1 stops) (by simp [lasts.1])
  · intro id i host found
    obtain ⟨j, there, shift⟩ := (move_change step).shift run.orderly.tidy found
    cases deleted : i.deleted with
    | false => rfl
    | true => exact absurd (shift.deleted deleted) (by simp [lasts.2 id j host there])

/-- The call that an instance is at is not in its mailbox too. -/
theorem Run.unqueued (run : Run (init registry) es m) (found : Table.find? m.instances id = some i)
    (current : i.phase.ticket? = some t) : ∀ call ∈ i.mailbox, call.ticket.serial ≠ t.serial := by
  intro call queued same
  have both : {t} + {call.ticket} ≤ m.held :=
    (Instance.held_behind current queued).trans (heldAt_instance found ▸ m.heldAt_le (.instance id))
  exact run.orderly.sound.apart both same.symm

/-- The ticket of a call that has still to end is held. -/
theorem EndsWith.held (ends : m.EndsWith call result) :
    ∃ t ∈ m.held, t.serial = call.serial := by
  cases ends with
  | @task t w _ host found own decided =>
    have unanswered : w ≠ .answered := by
      rintro rfl
      cases decided
    have here : t ∈ m.heldAt (.task call.serial) := by
      rw [heldAt_task found]
      exact mem_heldTask.2 ⟨unanswered, rfl⟩
    exact ⟨t, Multiset.mem_of_le (m.heldAt_le _) here, own⟩
  | @«instance» id i _ host found decided =>
    have here {t : Ticket} (held : t ∈ i.held) : t ∈ m.held := by
      rw [← heldAt_instance found] at held
      exact Multiset.mem_of_le (m.heldAt_le _) held
    rcases decided.served_or_queued with ⟨t, current, own⟩ | ⟨c, queued, own, -⟩
    · exact ⟨t, here (mem_heldInstance.2 (.inl current)), own⟩
    · exact ⟨c.ticket, here (mem_heldInstance.2 (.inr ⟨c, queued, rfl⟩)), own⟩

/-- No move changes what a cancelled call will end with: it is sent, or to be sent. -/
theorem EndsWith.move (ends : m.EndsWith call result) (run : Run (init registry) past m)
    (tripped : call.serial ∈ m.tripped) (lasts : m.Lasts call) (step : m.move? l = some k) :
    k.EndedWith call result ∨ k.EndsWith call result := by
  cases ends with
  | @task t w _ host found own decided =>
    by_cases mover : l.holder? = some (.task call.serial)
    · obtain ⟨now, rfl⟩ : ∃ now, l = .task call.serial now := by
        cases l with
        | task id now =>
          cases mover
          exact ⟨now, rfl⟩
        | _ => cases mover
      obtain ⟨x, made, comes⟩ := stepTask_ending found (own ▸ tripped) decided now
      cases made.symm.trans step
      rcases comes with ⟨u, same, sent⟩ | ⟨u, x, there, same, decided, -⟩
      · exact .inl ⟨u, same.trans own, sent⟩
      · exact .inr (.task host there (same.trans own) decided)
    · exact .inr (.task host (tasks_of_move step mover found) own decided)
  | @«instance» id i _ host found decided =>
    obtain ⟨j, there, shift⟩ := (move_change step).shift run.orderly.tidy found
    cases shift with
    | rest others silent => exact .inr (.instance host there decided)
    | mark asks named effects =>
      exact .inr (.instance host there (decided.frame rfl rfl rfl (List.Subset.refl _)))
    | queue asks named accepts serial replies effects =>
      exact .inr (.instance host there (decided.frame rfl rfl rfl (List.subset_append_left _ _)))
    | work moves worked replies effects =>
      rcases decided.served_or_queued with ⟨t, current, own⟩ | ⟨c, queued, own, rfl⟩
      · obtain ⟨now, rfl⟩ := instance_of_holder moves
        rw [← own] at decided tripped
        obtain ⟨x, made, comes⟩ := stepInstance_ending found current tripped decided
          (run.unqueued found current) now
        cases made.symm.trans step
        rcases comes with ⟨u, same, sent⟩ | ⟨y, u, here, current, same, decided, -⟩
        · exact .inl ⟨u, same.trans own, sent⟩
        · exact .inr (.instance host here (own ▸ decided))
      · rw [lasts.isClosed host found] at worked
        have accepts := run.accepts found (lasts.isClosed host found)
        exact .inr (.instance host there (own ▸ .of_queued queued accepts worked))

theorem replies_subset (since : Run k later n) : k.replies ⊆ n.replies := by
  induction since with
  | refl => exact List.Subset.refl _
  | move l before step ih =>
    obtain ⟨rs, replies, -⟩ := replies_of_move step
    rw [replies]
    exact List.subset_append_of_subset_left rs ih
  | exchange other before ih => exact ih

theorem tripped_subset (since : Run k later n) : k.tripped ⊆ n.tripped := by
  induction since with
  | refl => exact List.Subset.refl _
  | move l before step ih => exact List.Subset.trans ih (flags_of_move step).2
  | exchange other before ih => exact ih

/-- Nor does any run. -/
theorem EndsWith.run (ends : k.EndsWith call result) (whole : Run (init registry) past k)
    (tripped : call.serial ∈ k.tripped) (since : Run k later n) (lasts : n.Lasts call) :
    n.EndedWith call result ∨ n.EndsWith call result := by
  induction since with
  | refl => exact .inr ends
  | @move es x n l before step ih =>
    have prior := whole.trans before
    have earlier := lasts.before prior step
    rcases ih earlier with ⟨t, own, sent⟩ | open'
    · exact .inl ⟨t, own, replies_subset (.move l .refl step) sent⟩
    · exact open'.move prior (tripped_subset before tripped) earlier step
  | exchange other before ih =>
    refine (ih lasts).imp id fun ends => ?_
    cases ends with
    | task host found own decided => exact .task host found own decided
    | «instance» host found decided => exact .instance host found decided

/-! ## Progress -/

/-- A call is being served, and ends within some moves of its task or instance, if it is cancelled. -/
inductive Served (m : Machine σ) (call : Call) : Nat → Prop where
  | task {task : Task} (host : call.host = none)
      (found : Table.find? m.tasks call.serial = some task) : Served m call task.work.pace
  | «instance» {id : Nat} {i : Instance σ} {t : Ticket} (host : call.host = some id)
      (found : Table.find? m.instances id = some i) (current : i.phase.ticket? = some t)
      (own : t.serial = call.serial) : Served m call i.phase.pace

/-- Whose moves serve a call. -/
def Call.holder (call : Call) : Holder :=
  match call.host with
  | none => .task call.serial
  | some id => .instance id

def Call.move (call : Call) (now : Nat) : Move :=
  match call.host with
  | none => .task call.serial now
  | some id => .instance id now

/-- It is never far from its end. -/
theorem Served.le {p : Nat} (served : m.Served call p) : p ≤ 2 := by
  cases served with
  | @task task =>
    unfold Work.pace
    split <;> first | exact Drive.pace_le _ | omega
  | @«instance» id i =>
    unfold Phase.pace
    split <;> first | exact Drive.pace_le _ | omega

/-- The moves of others do not touch it. -/
theorem Served.of_other {p : Nat} (served : m.Served call p) (run : Run (init registry) past m)
    (step : m.move? l = some k) (other : l.holder? ≠ some call.holder) : k.Served call p := by
  cases served with
  | task host found =>
    rw [Call.holder, host] at other
    exact .task host (tasks_of_move step other found)
  | @«instance» id i t host found current own =>
    rw [Call.holder, host] at other
    obtain ⟨j, there, shift⟩ := (move_change step).shift run.orderly.tidy found
    have same : j.phase = i.phase := by
      cases shift with
      | rest | mark | queue => rfl
      | work moves => exact absurd moves other
    rw [← same] at current ⊢
    exact .instance host there current own

/-- It can move at any time, and each move brings it nearer to its end. -/
theorem EndsWith.served (ends : m.EndsWith call result) (run : Run (init registry) past m)
    (tripped : call.serial ∈ m.tripped) {p : Nat} (served : m.Served call p) (now : Nat) :
    ∃ k, m.move? (call.move now) = some k ∧
      (k.EndedWith call result ∨ ∃ q < p, k.Served call q) := by
  cases ends with
  | task host found own decided =>
    cases served with
    | task _ there =>
      cases there.symm.trans found
      obtain ⟨k, made, comes⟩ := stepTask_ending found (own ▸ tripped) decided now
      refine ⟨k, by rw [Call.move, host]; exact made, ?_⟩
      rcases comes with ⟨u, same, sent⟩ | ⟨u, x, here, same, decided, nearer⟩
      · exact .inl ⟨u, same.trans own, sent⟩
      · exact .inr ⟨_, nearer, .task host here⟩
    | «instance» other =>
      rw [host] at other
      cases other
  | «instance» host found decided =>
    cases served with
    | task other =>
      rw [host] at other
      cases other
    | @«instance» _ _ t other there current own =>
      cases other.symm.trans host
      cases there.symm.trans found
      rw [← own] at decided tripped
      obtain ⟨k, made, comes⟩ := stepInstance_ending found current tripped decided
        (run.unqueued found current) now
      refine ⟨k, by rw [Call.move, host]; exact made, ?_⟩
      rcases comes with ⟨u, same, sent⟩ | ⟨y, u, here, current, same, decided, nearer⟩
      · exact .inl ⟨u, same.trans own, sent⟩
      · exact .inr ⟨_, nearer, .instance host here current (same.trans own)⟩

/-- A call that is not served is in the mailbox of its instance, which can move at any time but when the
call that it is at is a stream from which nothing comes. -/
theorem EndsWith.queued (ends : m.EndsWith call result) (run : Run (init registry) past m)
    (lasts : m.Lasts call) (unserved : ∀ p, ¬ m.Served call p) :
    ∃ id i, call.host = some id ∧ Table.find? m.instances id = some i ∧
      (∃ c ∈ i.mailbox, c.ticket.serial = call.serial) ∧
      ∀ now, (∃ k, m.move? (.instance id now) = some k) ∨
        ∃ t d, i.phase = .driving t d ∧ d.found = none ∧ m.isCancelled t = false ∧
          d.arrived? now = none := by
  cases ends with
  | task host found own decided => exact absurd (.task host found) (unserved _)
  | @«instance» id i _ host found decided =>
    rcases decided.served_or_queued with ⟨t, current, own⟩ | ⟨c, queued, own, -⟩
    · exact absurd (.instance host found current own) (unserved _)
    · have isOpen := lasts.isClosed host found
      have accepts := run.accepts found isOpen
      refine ⟨id, i, host, found, ⟨c, queued, own⟩, fun now => ?_⟩
      simp only [move?, stepInstance?, found, Option.bind_eq_bind, Option.bind_some]
      cases phase : i.phase with
      | idle =>
        obtain ⟨first, rest, queue⟩ := List.exists_cons_of_ne_nil (List.ne_nil_of_mem queued)
        simp [isOpen, queue]
      | driving t d =>
        dsimp only
        split
        · next waits =>
          obtain ⟨found, going, absent⟩ := Drive.of_waiting waits
          rw [isOpen, Bool.false_or] at going
          exact .inr ⟨t, d, rfl, found, going, absent⟩
        · exact .inl ⟨_, rfl⟩
        · exact .inl ⟨_, rfl⟩
      | taken | begun | answered => simp
      | closing | drained | ended =>
        rw [phase] at accepts
        cases accepts

end Machine

end Patchbay
