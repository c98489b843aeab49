import Patchbay.Proofs.Tables
import Patchbay.Proofs.Machine.Ledger

/-!
# What the moves of a machine do

For each part of a machine the tickets it holds, and for each kind of move everything it can change.
Later proofs go through these descriptions and do not open the moves again.
-/

namespace Patchbay

variable {σ : Type}

/-! ## Held tickets -/

/-- The ticket of a call that is not answered yet. -/
def Task.held (task : Task) : Multiset Ticket :=
  match task.work with
  | .answered => 0
  | _ => {task.ticket}

/-- The ticket of the call that an instance is at. -/
def Phase.ticket? : Phase σ → Option Ticket
  | .taken call => some call.ticket
  | .begun call _ => some call.ticket
  | .driving t _ => some t
  | _ => none

def Phase.hasEnded : Phase σ → Bool
  | .ended => true
  | _ => false

theorem Phase.not_hasEnded_of_accepts {phase : Phase σ} (accepts : phase.accepts) :
    ¬ phase.hasEnded := by
  cases phase <;> simp_all [Phase.accepts, Phase.hasEnded]

/-- The tickets of the queued calls. -/
def queuedTickets (mailbox : List MethodCall) : Multiset Ticket :=
  (mailbox.map MethodCall.ticket : List Ticket)

@[simp] theorem queuedTickets_cons (call : MethodCall) (rest : List MethodCall) :
    queuedTickets (call :: rest) = {call.ticket} + queuedTickets rest := rfl

@[simp] theorem queuedTickets_append (front back : List MethodCall) :
    queuedTickets (front ++ back) = queuedTickets front + queuedTickets back := by
  simp [queuedTickets, ← Multiset.coe_add]

def Instance.held (i : Instance σ) : Multiset Ticket :=
  i.phase.ticket?.elim 0 ({·}) + queuedTickets i.mailbox

theorem Instance.held_at {i : Instance σ} {t : Ticket} (current : i.phase.ticket? = some t) :
    i.held = {t} + queuedTickets i.mailbox := by
  rw [Instance.held, current]
  rfl

theorem Instance.held_idle {i : Instance σ} (idle : i.phase.ticket? = none) :
    i.held = queuedTickets i.mailbox := by
  rw [Instance.held, idle]
  exact zero_add _

def Waiter.held (w : Waiter) : Multiset Ticket := {w.ticket}

namespace Machine

/-- All tickets that are still to be answered. -/
def held (m : Machine σ) : Multiset Ticket :=
  Table.total Task.held m.tasks + Table.total Instance.held m.instances
    + Table.total Waiter.held m.waiters

/-! ## Tasks -/

/-- A move of a task works on its call, which may pay some replies, or drops an answered task. -/
inductive TaskMove (m : Machine σ) (id : Nat) : Machine σ → Prop where
  | work {task : Task} (next : Task) {rs : List Reply}
      (found : Table.find? m.tasks id = some task) (paid : Pays task.held rs next.held) :
      TaskMove m id
        { m with tasks := Table.put m.tasks id next, replies := m.replies ++ rs }
  | drop {task : Task} (found : Table.find? m.tasks id = some task) (answered : task.held = 0) :
      TaskMove m id
        { m with
          tasks := Table.erase m.tasks id
          notices := m.notices ++ [task.ticket.key] }

end Machine

/-- The last reply for an instant result. -/
theorem Ticket.finish_last (t : Ticket) (result : Except Fault Value) :
    t.Last (t.finish result) := by
  cases result with
  | ok v => exact .done v
  | error f => exact .fail f

/-- What driving a stream further pays. -/
def Progress.Paid (t : Ticket) : Progress → Prop
  | .waiting => True
  | .more rs next _ => t.Spend rs {next}
  | .ended rs => t.Spend rs 0

namespace Drive

theorem flush_spend (d : Drive) (t : Ticket) : t.Spend (d.flush t).1 {(d.flush t).2} := by
  unfold flush
  cases d.held with
  | none => exact .none t
  | some v => exact .partials [v]

theorem failWith_paid (d : Drive) (t : Ticket) (f : Fault) : (d.failWith t f).Paid t :=
  (d.flush_spend t).trans (.last (.fail f))

theorem act_paid (d : Drive) (t : Ticket) (now : Nat) (e : Element) : (d.act t now e).Paid t := by
  cases e with
  | value v => exact d.flush_spend t
  | fault f => exact d.failWith_paid t f
  | finished => exact .last (.done _)

theorem advance_paid (d : Drive) (t : Ticket) (cancelled : Bool) (now : Nat) :
    (d.advance t cancelled now).Paid t := by
  unfold advance
  split
  · exact d.act_paid t now _
  · split
    · exact d.failWith_paid t .cancelled
    · split
      · exact .none t
      · trivial

end Drive

namespace Machine

theorem setWork_move {m : Machine σ} {id : Nat} {task : Task}
    (found : Table.find? m.tasks id = some task) {t : Ticket} {w : Work}
    (paid : Pays task.held [] (Task.held ⟨t, w⟩)) : TaskMove m id (m.setWork id t w) := by
  have move := TaskMove.work ⟨t, w⟩ found paid
  rwa [List.append_nil] at move

theorem endTask_move {m : Machine σ} {id : Nat} {task : Task}
    (found : Table.find? m.tasks id = some task) (isOpen : task.held = {task.ticket}) {t : Ticket}
    {rs : List Reply} (paid : task.ticket.Spend rs 0) : TaskMove m id (m.endTask id t rs) :=
  .work ⟨t, .answered⟩ found (isOpen ▸ .alone paid)

theorem runTask_move {m : Machine σ} {id : Nat} {t : Ticket} {op : Operator} {args : Value}
    (found : Table.find? m.tasks id = some ⟨t, .begun op args⟩) (now : Nat) :
    TaskMove m id (m.runTask id t op args now) := by
  cases op with
  | instant run => exact endTask_move found rfl (.last (t.finish_last _))
  | streaming run =>
    cases result : run args with
    | ok stream =>
      simp only [runTask, result]
      exact setWork_move found (.alone (.none t))
    | error f =>
      simp only [runTask, result]
      exact endTask_move found rfl (.last (.fail f))

theorem stepTask_move {m k : Machine σ} {id now : Nat} (step : m.stepTask? id now = some k) :
    TaskMove m id k := by
  unfold stepTask? at step
  cases found : Table.find? m.tasks id with
  | none => simp [found] at step
  | some task =>
    obtain ⟨t, work⟩ := task
    simp only [found, Option.bind_eq_bind, Option.bind_some] at step
    cases work with
    | start op args =>
      cases step
      unfold startTask
      split
      · exact endTask_move found rfl (.last (.fail _))
      · exact setWork_move found (.alone (.none t))
    | begun op args =>
      cases step
      exact runTask_move found now
    | drive d =>
      have paid := d.advance_paid t (m.isCancelled t) now
      simp only at step
      split at step
      · cases step
      · next more =>
        cases step
        rw [more] at paid
        exact .work ⟨_, .drive _⟩ found (.alone paid)
      · next ended =>
        cases step
        rw [ended] at paid
        exact endTask_move found rfl paid
    | answered =>
      cases step
      exact .drop found rfl

/-! ## Instances -/

end Machine

/-- The state that the body of a method leaves behind. -/
def Method.next (method : Method σ) (state : σ) (args : Value) : σ :=
  match method with
  | .instant run => (run state args).2
  | .streaming run => (run state args).2

/-- A component after the body of a call ran on it. -/
def Component.ran (c : Component σ) (call : MethodCall) (method : Method σ) : Component σ :=
  { c with state := method.next c.state call.args }

/-- What the next move of an instance writes to the log: the lines of its teardown hook, if it is
closing and no call is left. -/
def Instance.hookLines (i : Instance σ) : List String :=
  match i.phase with
  | .closing => if i.mailbox.isEmpty then i.component.teardown i.component.state else []
  | _ => []

/-- What one move makes of an instance, and the replies it sends. A closed instance takes no call and
begins none; a stream that is driven on when closed had its next element found before. -/
inductive InstanceStep (closed : Bool) (i : Instance σ) : List Reply → Instance σ → Prop where
  | close (phase : i.phase = .idle) (isClosed : closed = true) :
      InstanceStep closed i [] { i with phase := .closing }
  | take {call : MethodCall} {rest : List MethodCall} (phase : i.phase = .idle)
      (isOpen : closed = false) (queue : i.mailbox = call :: rest) :
      InstanceStep closed i [] { i with mailbox := rest, phase := .taken call }
  | refuse {call : MethodCall} (f : Fault) (phase : i.phase = .taken call) :
      InstanceStep closed i [call.ticket.fail f] { i with phase := .answered call.ticket.key }
  | start {call : MethodCall} {method : Method σ} (phase : i.phase = .taken call)
      (isOpen : closed = false) : InstanceStep closed i [] { i with phase := .begun call method }
  | answer {call : MethodCall} {method : Method σ} {r : Reply} (phase : i.phase = .begun call method)
      (last : call.ticket.Last r) :
      InstanceStep closed i [r]
        { i with component := i.component.ran call method, phase := .answered call.ticket.key }
  | stream {call : MethodCall} {method : Method σ} (s : Stream) (now : Nat)
      (phase : i.phase = .begun call method) :
      InstanceStep closed i []
        { i with
          component := i.component.ran call method
          phase := .driving call.ticket (Drive.start s now) }
  | drive {t next : Ticket} {d e : Drive} {rs : List Reply} (phase : i.phase = .driving t d)
      (paid : t.Spend rs {next}) (found : closed = true → d.found.isSome ∧ e.found = none) :
      InstanceStep closed i rs { i with phase := .driving next e }
  | finish {t : Ticket} {d : Drive} {rs : List Reply} (phase : i.phase = .driving t d)
      (paid : t.Spend rs 0) : InstanceStep closed i rs { i with phase := .answered t.key }
  | resume {key : CallKey} (phase : i.phase = .answered key) :
      InstanceStep closed i [] { i with phase := .idle }
  | drain {call : MethodCall} {rest : List MethodCall} (phase : i.phase = .closing)
      (queue : i.mailbox = call :: rest) :
      InstanceStep closed i [call.ticket.fail (.notFound "component" i.name)]
        { i with mailbox := rest, phase := .drained call.ticket.key }
  | reopen {key : CallKey} (phase : i.phase = .drained key) :
      InstanceStep closed i [] { i with phase := .closing }
  | tearDown (phase : i.phase = .closing) (queue : i.mailbox = []) :
      InstanceStep closed i [] { i with phase := .ended }

namespace InstanceStep

variable {closed : Bool} {i next : Instance σ} {rs : List Reply}

theorem name (step : InstanceStep closed i rs next) : next.name = i.name := by
  cases step <;> rfl

theorem deleted (step : InstanceStep closed i rs next) : next.deleted = i.deleted := by
  cases step <;> rfl

/-- An instance ends behind the last of its calls only. -/
theorem drained (step : InstanceStep closed i rs next) (ended : next.phase.hasEnded) :
    next.mailbox = [] := by
  cases step with
  | tearDown phase queue => exact queue
  | _ => cases ended

/-- Only the move that ends an instance runs its teardown hook. -/
theorem hookLines (step : InstanceStep closed i rs next) (alive : next.phase.hasEnded = false) :
    i.hookLines = [] := by
  cases step with
  | tearDown phase queue => cases alive
  | drain phase queue => simp [Instance.hookLines, phase, queue]
  | close phase | take phase | refuse f phase | start phase | answer phase | stream s now phase
  | drive phase | finish phase | resume phase | reopen phase => simp [Instance.hookLines, phase]

/-- Answering the call that an instance is at. -/
private theorem paid_at {t : Ticket} (current : i.phase.ticket? = some t)
    (idle : next.phase.ticket? = none) (mailbox : next.mailbox = i.mailbox) (paid : t.Spend rs 0) :
    Pays i.held rs next.held := by
  rw [Instance.held_at current, Instance.held_idle idle, mailbox, ← zero_add (queuedTickets _)]
  exact .spend paid _

/-- What an instance holds is paid for by the replies of its moves. -/
theorem paid (step : InstanceStep closed i rs next) : Pays i.held rs next.held := by
  have silent {i next : Instance σ} (same : next.held = i.held) : Pays i.held [] next.held := by
    rw [same]
    exact .nothing _
  cases step with
  | close phase => exact silent (by simp [Instance.held, phase, Phase.ticket?])
  | take phase isOpen queue => exact silent (by simp [Instance.held, phase, queue, Phase.ticket?])
  | refuse f phase => exact paid_at (by rw [phase]; rfl) rfl rfl (.last (.fail f))
  | start phase => exact silent (by simp [Instance.held, phase, Phase.ticket?])
  | answer phase last => exact paid_at (by rw [phase]; rfl) rfl rfl (.last last)
  | stream s now phase => exact silent (by simp [Instance.held, phase, Phase.ticket?])
  | drive phase paid found =>
    rw [Instance.held_at (by rw [phase]; rfl), Instance.held_at rfl]
    exact .spend paid _
  | finish phase paid => exact paid_at (by rw [phase]; rfl) rfl rfl paid
  | resume phase => exact silent (by simp [Instance.held, phase, Phase.ticket?])
  | @drain call rest phase queue =>
    rw [Instance.held_idle (by rw [phase]; rfl), queue, queuedTickets_cons, Instance.held_idle rfl,
      ← zero_add (queuedTickets rest)]
    exact .spend (.last (.fail _)) (queuedTickets rest)
  | reopen phase => exact silent (by simp [Instance.held, phase, Phase.ticket?])
  | tearDown phase queue => exact silent (by simp [Instance.held, phase, Phase.ticket?])

end InstanceStep

/-- Driving a stream on behind a cancellation acts on what was found before. -/
theorem Drive.found_of_advance {d e : Drive} {t next : Ticket} {now : Nat} {rs : List Reply}
    (more : d.advance t true now = .more rs next e) : d.found.isSome ∧ e.found = none := by
  unfold advance at more
  split at more
  · next element here =>
    refine ⟨by simp [here], ?_⟩
    cases element with
    | value v =>
      cases more
      rfl
    | fault f => cases more
    | finished => cases more
  · cases more

namespace Machine

/-- A move of an instance leaves everything else as it is, but that it may tell the end of a call and
its teardown hook may write to the log. -/
inductive InstanceMove (m : Machine σ) (id : Nat) : Machine σ → Prop where
  | work {i next : Instance σ} {rs : List Reply} (notices : List CallKey)
      (found : Table.find? m.instances id = some i)
      (step : InstanceStep (m.isClosed i) i rs next) :
      InstanceMove m id
        { m with
          instances := Table.put m.instances id next
          replies := m.replies ++ rs
          notices := notices
          log := m.log ++ i.hookLines }

/-- A move that writes nothing to the log. -/
private theorem quiet_move {m : Machine σ} {id : Nat} {i next : Instance σ} {rs : List Reply}
    (notices : List CallKey) (found : Table.find? m.instances id = some i)
    (step : InstanceStep (m.isClosed i) i rs next) (alive : next.phase.hasEnded = false) :
    InstanceMove m id
      { m with
        instances := Table.put m.instances id next
        replies := m.replies ++ rs
        notices := notices } := by
  have move := InstanceMove.work notices found step
  rwa [step.hookLines alive, List.append_nil] at move

/-- A move that sends nothing either. -/
private theorem silent_move {m : Machine σ} {id : Nat} {i next : Instance σ}
    (notices : List CallKey) (found : Table.find? m.instances id = some i)
    (step : InstanceStep (m.isClosed i) i [] next) (alive : next.phase.hasEnded = false) :
    InstanceMove m id
      { m with instances := Table.put m.instances id next, notices := notices } := by
  have move := quiet_move notices found step alive
  rwa [List.append_nil] at move

theorem setInstance_move {m : Machine σ} {id : Nat} {i next : Instance σ}
    (found : Table.find? m.instances id = some i)
    (step : InstanceStep (m.isClosed i) i [] next) (alive : next.phase.hasEnded = false) :
    InstanceMove m id (m.setInstance id next) :=
  silent_move m.notices found step alive

/-- Answering the call that an instance is at. -/
theorem endCall_move {m : Machine σ} {id : Nat} {i next : Instance σ} {t : Ticket}
    {rs : List Reply} (found : Table.find? m.instances id = some i)
    (step : InstanceStep (m.isClosed i) i rs { next with phase := .answered t.key }) :
    InstanceMove m id (m.endCall id next t rs) :=
  quiet_move m.notices found step rfl

theorem invoke_move {m : Machine σ} {id : Nat} {i : Instance σ} {call : MethodCall}
    (found : Table.find? m.instances id = some i) (phase : i.phase = .taken call) :
    InstanceMove m id (m.invoke id i call) := by
  unfold invoke
  dsimp only
  split
  · exact endCall_move found (.refuse _ phase)
  · split
    · exact endCall_move found (.refuse _ phase)
    · next goes =>
      simp only [Bool.or_eq_true, not_or, Bool.not_eq_true] at goes
      exact setInstance_move found (.start phase goes.1) rfl

theorem perform_move {m : Machine σ} {id : Nat} {i : Instance σ} {call : MethodCall}
    {method : Method σ} (found : Table.find? m.instances id = some i)
    (phase : i.phase = .begun call method) (now : Nat) :
    InstanceMove m id (m.perform id i call method now) := by
  cases method with
  | instant run => exact endCall_move found (.answer phase (call.ticket.finish_last _))
  | streaming run =>
    simp only [perform]
    split
    · next s result => exact setInstance_move found (.stream s now phase) rfl
    · next f result => exact endCall_move found (.answer phase (.fail f))

theorem drain_move {m : Machine σ} {id : Nat} {i : Instance σ}
    (found : Table.find? m.instances id = some i) (phase : i.phase = .closing) :
    InstanceMove m id (m.drain id i) := by
  unfold drain
  split
  · next call rest queue => exact quiet_move m.notices found (.drain phase queue) rfl
  · next queue =>
    have move := InstanceMove.work m.notices found (.tearDown phase queue)
    have lines : i.hookLines = i.component.teardown i.component.state := by
      simp [Instance.hookLines, phase, queue]
    rwa [List.append_nil, lines] at move

theorem stepInstance_move {m k : Machine σ} {id now : Nat}
    (step : m.stepInstance? id now = some k) : InstanceMove m id k := by
  unfold stepInstance? at step
  cases found : Table.find? m.instances id with
  | none => simp [found] at step
  | some i =>
    simp only [found, Option.bind_eq_bind, Option.bind_some] at step
    cases phase : i.phase with
    | idle =>
      simp only [phase] at step
      split at step
      · next closed =>
        cases step
        exact setInstance_move found (.close phase closed) rfl
      · next isOpen =>
        split at step
        · cases step
        · next call rest queue =>
          cases step
          exact setInstance_move found (.take phase (by simpa using isOpen) queue) rfl
    | taken call =>
      simp only [phase, Option.some.injEq] at step
      exact step ▸ invoke_move found phase
    | begun call method =>
      simp only [phase, Option.some.injEq] at step
      exact step ▸ perform_move found phase now
    | driving t d =>
      have paid := d.advance_paid t (m.isClosed i || m.isCancelled t) now
      simp only [phase] at step
      split at step
      · cases step
      · next more =>
        cases step
        rw [more] at paid
        refine quiet_move m.notices found (.drive phase paid fun closed => ?_) rfl
        rw [closed, Bool.true_or] at more
        exact Drive.found_of_advance more
      · next ended =>
        cases step
        rw [ended] at paid
        exact endCall_move found (.finish phase paid)
    | answered key =>
      simp only [phase, Option.some.injEq] at step
      exact step ▸ silent_move (m.notices ++ [key]) found (.resume phase) rfl
    | closing =>
      simp only [phase, Option.some.injEq] at step
      exact step ▸ drain_move found phase
    | drained key =>
      simp only [phase, Option.some.injEq] at step
      exact step ▸ silent_move (m.notices ++ [key]) found (.reopen phase) rfl
    | ended =>
      simp only [phase] at step
      cases step

/-! ## Waiters -/

/-- A waiter answers its delete once the instance has ended. -/
inductive WaiterMove (m : Machine σ) (id : Nat) : Machine σ → Prop where
  | settle {w : Waiter} {i : Instance σ} (found : Table.find? m.waiters id = some w)
      (awaited : Table.find? m.instances w.instanceId = some i) (ended : i.phase.hasEnded) :
      WaiterMove m id
        { m with
          waiters := Table.erase m.waiters id
          replies := m.replies ++ [w.ticket.done .null] }

theorem stepWaiter_move {m k : Machine σ} {id : Nat} (step : m.stepWaiter? id = some k) :
    WaiterMove m id k := by
  unfold stepWaiter? at step
  cases found : Table.find? m.waiters id with
  | none => simp [found] at step
  | some w =>
    cases awaited : Table.find? m.instances w.instanceId with
    | none => simp [found, awaited] at step
    | some i =>
      simp only [found, awaited, Option.bind_eq_bind, Option.bind_some] at step
      split at step
      · next phase =>
        cases step
        exact .settle found awaited (by rw [phase]; rfl)
      · cases step

/-! ## Requests -/

/-- What taking an execute leads to: a reply at once, a task, a component, a queued call or a waiter
for the end of an instance. -/
inductive ExecuteMove (m : Machine σ) (t : Ticket) : Machine σ → Prop where
  | refused (inflight : Table CallKey Nat) (f : Fault) :
      ExecuteMove m t { m with inflight := inflight, replies := m.replies ++ [t.fail f] }
  | started (op : Operator) (args : Value) :
      ExecuteMove m t
        { m with
          inflight := Table.put m.inflight t.key t.serial
          tasks := m.tasks ++ [(t.serial, ⟨t, .start op args⟩)] }
  | defined (name : String) (component : Component σ) (v : Value) :
      ExecuteMove m t
        { m with
          live := Table.put m.live name t.serial
          instances := m.instances ++ [(t.serial, ⟨name, component, [], .idle, false⟩)]
          replies := m.replies ++ [t.done v] }
  | deleting {name : String} {id : Nat} (found : Table.find? m.live name = some id) :
      ExecuteMove m t
        { m with
          live := Table.erase m.live name
          instances := Table.modify m.instances id fun i => { i with deleted := true }
          waiters := m.waiters ++ [(t.serial, ⟨t, id⟩)] }
  | queued {id : Nat} {i : Instance σ} {call : MethodCall}
      (found : Table.find? m.instances id = some i) (accepts : i.phase.accepts)
      (ticket : call.ticket = t) :
      ExecuteMove m t
        { m with
          inflight := Table.put m.inflight t.key t.serial
          instances := Table.modify m.instances id fun i =>
            { i with mailbox := i.mailbox ++ [call] } }

theorem refused_move (m : Machine σ) (t : Ticket) (f : Fault) :
    ExecuteMove m t (m.answer (t.fail f)) :=
  .refused m.inflight f

theorem callFunction_move (m : Machine σ) (name : String) (args : Value) (t : Ticket) :
    ExecuteMove m t (m.callFunction name args t) := by
  unfold callFunction
  split
  · exact m.refused_move t _
  · exact .started _ args

theorem defineComponent_move (m : Machine σ) (type : String) (body : Value) (t : Ticket) :
    ExecuteMove m t (m.defineComponent type body t) := by
  unfold defineComponent
  split
  · exact m.refused_move t _
  · exact .defined _ _ _

theorem deleteComponent_move (m : Machine σ) (name : String) (t : Ticket) :
    ExecuteMove m t (m.deleteComponent name t) := by
  unfold deleteComponent
  split
  · exact m.refused_move t _
  · next found => exact .deleting found

theorem callMethod_move (m : Machine σ) (name method : String) (args : Value) (t : Ticket) :
    ExecuteMove m t (m.callMethod name method args t) := by
  unfold callMethod
  split
  · exact m.refused_move t _
  · next id i named =>
    obtain ⟨live, -, found⟩ := Option.bind_eq_some_iff.1 named
    obtain ⟨j, found, same⟩ := Option.map_eq_some_iff.1 found
    cases same
    split
    · next accepts => exact .queued found accepts rfl
    · exact .refused (Table.erase m.inflight t.key) _

/-! ## All moves -/

/-- The request that a move takes. -/
def Move.asked : Move → List Request
  | .request r => [r]
  | _ => []

/-- What a move leads to, and the request it takes. -/
inductive Moved (m : Machine σ) : List Request → Machine σ → Prop where
  | execute {origin : ClientId} {target : Target} {packet : Packet} {k : Machine σ}
      (move : ExecuteMove { m with serial := m.serial + 1 }
        (.issue m.serial origin target packet) k) : Moved m [.execute origin target packet] k
  | cancel {origin : ClientId} {tx : String} (tripped : List Nat) {r : Reply}
      (serial : r.serial = m.serial) :
      Moved m [.cancel origin tx]
        { m with serial := m.serial + 1, tripped := tripped, replies := m.replies ++ [r] }
  | upkeep {live : Table String Nat} {inflight : Table CallKey Nat} {tripped : List Nat}
      {begun : Option (Nat × CallKey)} {notices : List CallKey} {stopping halted : Bool}
      (known : live ⊆ m.live) :
      Moved m []
        { m with
          live := live
          inflight := inflight
          tripped := tripped
          begun := begun
          notices := notices
          stopping := stopping
          halted := halted }
  | task {id : Nat} {k : Machine σ} (move : TaskMove m id k) : Moved m [] k
  | «instance» {id : Nat} {k : Machine σ} (move : InstanceMove m id k) : Moved m [] k
  | waiter {id : Nat} {k : Machine σ} (move : WaiterMove m id k) : Moved m [] k

theorem handle_moved (m : Machine σ) (r : Request) : Moved m [r] (m.handle r) := by
  cases r with
  | cancel origin tx =>
    simp only [handle, cancel]
    split
    · exact .cancel (_ :: m.tripped) rfl
    · exact .cancel m.tripped rfl
  | execute origin target packet =>
    cases target with
    | function name => exact .execute (callFunction_move ..)
    | componentType type => exact .execute (defineComponent_move ..)
    | component name => exact .execute (deleteComponent_move ..)
    | method name method => exact .execute (callMethod_move ..)

section

variable {m k : Machine σ}

theorem move_request_iff {r : Request} :
    m.move? (.request r) = some k ↔ m.defers r = false ∧ m.handle r = k := by
  simp only [move?]
  cases m.defers r <;> simp

theorem handle_of_request {r : Request} (step : m.move? (.request r) = some k) :
    m.handle r = k := (move_request_iff.1 step).2

theorem running_of_takes {r : Request} (takes : m.defers r = false) : m.halted = false :=
  (Bool.or_eq_false_iff.1 takes).1

/-- A machine that is not busy takes any request. -/
theorem takes_of_idle (idle : m.isBusy = false) (r : Request) : m.defers r = false := by
  simp only [isBusy, Bool.or_eq_false_iff, Option.isSome_eq_false_iff, Option.isNone_iff_eq_none] at idle
  simp [defers, idle]

/-- Behind an execute the machine is not busy. -/
theorem idle_of_execute {origin : ClientId} {target : Target} {packet : Packet}
    (step : m.move? (.request (.execute origin target packet)) = some k) : k.isBusy = false := by
  obtain ⟨takes, made⟩ := move_request_iff.1 step
  have moved := m.handle_moved (.execute origin target packet)
  rw [made] at moved
  generalize asked : [Request.execute origin target packet] = requests at moved
  have kept : k.halted = m.halted ∧ k.begun = m.begun ∧ k.serial = m.serial + 1 := by
    cases moved with
    | execute move => cases move <;> exact ⟨rfl, rfl, rfl⟩
    | _ => cases asked
  obtain ⟨halted, begun, serial⟩ := kept
  simp only [defers, Bool.or_eq_false_iff, Request.cancels, cancelling?] at takes
  obtain ⟨running, none⟩ := takes
  simp only [isBusy, halted, running, begun, serial, cancelling?, Bool.false_or]
  cases last : m.begun with
  | none => rfl
  | some cancel =>
    have earlier : cancel.1 < m.serial := by
      by_contra still
      simp [last, still] at none
    simp [Nat.lt_succ_of_lt earlier]

theorem trip_of_move {key : CallKey} (step : m.move? (.trip key) = some k) :
    m.isBusy = false ∧ m.trip key = k := by
  simp only [move?] at step
  split at step
  · cases step
  · next idle => exact ⟨Bool.not_eq_true _ ▸ idle, Option.some.inj step⟩

theorem halt_of_move (step : m.move? .halt = some k) :
    m.stopping = true ∧ { m with halted := true, live := [] } = k := by
  simp only [move?, halt?] at step
  split at step
  · cases step
  · split at step
    · next stops => exact ⟨(Bool.and_eq_true_iff.1 stops).1, Option.some.inj step⟩
    · cases step

theorem notice_of_move (step : m.move? .notice = some k) :
    ∃ key rest, m.notices = key :: rest ∧
      { m with notices := rest, inflight := Table.erase m.inflight key } = k := by
  simp only [move?, notice?] at step
  split at step
  · cases step
  · split at step
    · cases step
    · next key rest queue => exact ⟨key, rest, queue, Option.some.inj step⟩

end

/-- Whether a move concerns neither a request nor any of the work. -/
def Move.isUpkeep : Move → Bool
  | .trip _ | .stop | .halt | .notice => true
  | _ => false

/-- Upkeep changes flags, the calls in flight and the notices, and may forget all names in use. -/
theorem upkeep_of_move {m k : Machine σ} {l : Move} (upkeep : l.isUpkeep)
    (step : m.move? l = some k) :
    ∃ n : Machine σ, (n.live = m.live ∨ n.live = []) ∧
      k = { m with
        live := n.live
        inflight := n.inflight
        tripped := n.tripped
        begun := n.begun
        notices := n.notices
        stopping := n.stopping
        halted := n.halted } := by
  cases l with
  | trip key => exact ⟨m.trip key, .inl rfl, (trip_of_move step).2.symm⟩
  | stop =>
    cases step
    exact ⟨m.stop, .inl rfl, rfl⟩
  | halt =>
    obtain ⟨-, rfl⟩ := halt_of_move step
    exact ⟨{ m with halted := true, live := [] }, .inr rfl, rfl⟩
  | notice =>
    obtain ⟨key, rest, -, rfl⟩ := notice_of_move step
    exact ⟨{ m with notices := rest, inflight := Table.erase m.inflight key }, .inl rfl, rfl⟩
  | request | task | «instance» | waiter => cases upkeep

theorem move_moved {m k : Machine σ} {l : Move} (step : m.move? l = some k) :
    Moved m l.asked k := by
  cases l with
  | request r => exact handle_of_request step ▸ m.handle_moved r
  | trip | stop | halt | notice =>
    obtain ⟨n, same | none, rfl⟩ := upkeep_of_move rfl step
    · exact .upkeep (same ▸ List.Subset.refl _)
    · exact .upkeep (none ▸ List.nil_subset _)
  | task id now => exact .task (stepTask_move step)
  | «instance» id now => exact .instance (stepInstance_move step)
  | waiter id => exact .waiter (stepWaiter_move step)

end Machine

end Patchbay
