import Patchbay.Proofs.Machine.CallLog
import Patchbay.Proofs.Machine.Calls

/-!
# Runs and their calls

A run of a machine together with the log of its calls. The log is read off the moves; a notice carries
a key only, so which call it tells the end of is known by the order in which calls are served: a task
tells the end of its own call, an instance that of the oldest call it was given and has not told of,
and notices are heard in the order in which they are sent.

In every run this is what there is: the calls of which nothing was told are those of the tasks, those in
the mailboxes, and the ones that instances are at; the queue of notices is that of the calls told of
but not heard of; and the table of calls in flight and the tripped calls are what the log says.
-/

namespace Patchbay

variable {σ : Type}

/-- A ticket as a call. -/
def Ticket.call (t : Ticket) (host : Option Nat) : Machine.Call := ⟨t.serial, t.key, host⟩

/-- The key of the call that was answered and of whose end the machine is to be told. -/
def Phase.finished? : Phase σ → Option CallKey
  | .answered key | .drained key => some key
  | _ => none

namespace Machine

open CallEvent

/-! ## The log of a run -/

/-- What happens to calls when a request is taken. -/
def requestCall? (m : Machine σ) : Request → Option CallEvent
  | .cancel origin tx => some (.cancel (origin, tx))
  | .execute origin (.function name) packet =>
    (m.registry.function? name).map fun _ => .taken ⟨m.serial, (origin, packet.tx), none⟩
  | .execute origin (.method name _) packet =>
    ((Table.find? m.live name).bind fun id =>
      (Table.find? m.instances id).map fun i => (id, i)).map fun (id, i) =>
        if i.phase.accepts then .taken ⟨m.serial, (origin, packet.tx), some id⟩
        else .turnedAway (origin, packet.tx)
  | .execute _ (.component name) _ => (Table.find? m.live name).map .deleted
  | .execute _ (.componentType _) _ => none

/-- What happens to calls in a move, behind what happened before. A cancel that takes two moves is noted at
both. -/
def callEvent? (m : Machine σ) (es : List CallEvent) : Move → Option CallEvent
  | .trip key => some (.cancel key)
  | .request r => m.requestCall? r
  | .stop => some .stopped
  | .notice => (toldIn es)[(heardIn es).length]?.map .heard
  | .task id _ => (Table.find? m.tasks id).bind fun task =>
    match task.work with
    | .answered => some (.told (task.ticket.call none))
    | _ => none
  | .instance id _ => (Table.find? m.instances id).bind fun i =>
    if i.phase.finished?.isSome then (untold es (some id)).head?.map .told else none
  | .halt | .waiter _ => none

/-- A machine that was started, and what happened to calls since. Between two moves the registry may be
exchanged. -/
inductive CallRun (registry : Registry σ) : List CallEvent → Machine σ → Prop where
  | start : CallRun registry [] (init registry)
  | move {es : List CallEvent} {m k : Machine σ} (l : Move) (before : CallRun registry es m)
      (step : m.move? l = some k) : CallRun registry (es ++ (m.callEvent? es l).toList) k
  | exchange {es : List CallEvent} {m : Machine σ} (other : Registry σ)
      (before : CallRun registry es m) : CallRun registry es { m with registry := other }

variable {registry : Registry σ} {m k : Machine σ} {es : List CallEvent} {e : CallEvent}
  {call : Call} {replies rs : List Reply} {id : Nat} {i next : Instance σ}

/-- What some moves lead to, with the log, if they can be made one after the other. -/
def logAfter? (m : Machine σ) (es : List CallEvent) : List Move → Option (List CallEvent × Machine σ)
  | [] => some (es, m)
  | l :: rest => (m.move? l).bind fun k => k.logAfter? (es ++ (m.callEvent? es l).toList) rest

theorem CallRun.after {fs : List CallEvent} (run : CallRun registry es m) {moves : List Move}
    (made : m.logAfter? es moves = some (fs, k)) : CallRun registry fs k := by
  induction moves generalizing es m with
  | nil =>
    cases made
    exact run
  | cons l rest ih =>
    obtain ⟨n, step, made⟩ := Option.bind_eq_some_iff.1 made
    exact ih (run.move l step) made

theorem CallRun.run (run : CallRun registry es m) : ∃ os, Run (init registry) os m := by
  induction run with
  | start => exact ⟨[], .refl⟩
  | move l before step ih =>
    obtain ⟨os, run⟩ := ih
    exact ⟨_, run.move l step⟩
  | exchange other before ih =>
    obtain ⟨os, run⟩ := ih
    exact ⟨os, run.exchange other⟩

/-- Every history has such a log. -/
theorem History.callRun {asked : List Request} (history : History asked m) :
    ∃ (registry : Registry σ) (es : List CallEvent), CallRun registry es m := by
  induction history with
  | start registry => exact ⟨registry, [], .start⟩
  | move l before step ih =>
    obtain ⟨registry, es, run⟩ := ih
    exact ⟨registry, _, run.move l step⟩
  | exchange other before ih =>
    obtain ⟨registry, es, run⟩ := ih
    exact ⟨registry, es, run.exchange other⟩

/-! ## Moves of tasks and instances -/

/-- The last reply to a call was sent. -/
def Answered (replies : List Reply) (call : Call) : Prop :=
  ∃ r ∈ replies, r.serial = call.serial ∧ r.packet.isTerminal = true

theorem Answered.mono {more : List Reply} (h : Answered replies call) (longer : replies ⊆ more) :
    Answered more call := by
  obtain ⟨r, member, last⟩ := h
  exact ⟨r, longer member, last⟩

/-- A task works on its call until it has answered it; then it tells the end of the call and is gone. -/
inductive TaskStep (m : Machine σ) (id : Nat) : Machine σ → Prop where
  | work {task : Task} (next : Task) {rs : List Reply} (found : Table.find? m.tasks id = some task)
      (unanswered : task.work ≠ .answered) (same : next.ticket.call none = task.ticket.call none)
      (last : next.work = .answered → Answered rs (task.ticket.call none)) :
      TaskStep m id { m with tasks := Table.put m.tasks id next, replies := m.replies ++ rs }
  | tell {task : Task} (found : Table.find? m.tasks id = some task) (answered : task.work = .answered) :
      TaskStep m id
        { m with
          tasks := Table.erase m.tasks id
          notices := m.notices ++ [task.ticket.key] }

end Machine

/-- What is left of a ticket is one for the same call. -/
theorem Ticket.Spend.call {t next : Ticket} {rs : List Reply} (paid : t.Spend rs {next})
    (host : Option Nat) : next.call host = t.call host := by
  generalize left : ({next} : Multiset Ticket) = rest at paid
  cases paid with
  | partials vs =>
    rw [Multiset.singleton_inj.1 left, Ticket.after_eq]
    rfl
  | ending vs last => exact absurd left (Multiset.singleton_ne_zero next)

theorem Ticket.Spend.answered {t : Ticket} {rs : List Reply} (paid : t.Spend rs 0)
    (host : Option Nat) : Machine.Answered rs (t.call host) := paid.terminal

namespace Machine

open CallEvent

variable {registry : Registry σ} {m k : Machine σ} {es : List CallEvent} {e : CallEvent}
  {call : Call} {replies rs : List Reply} {id : Nat} {i next : Instance σ}

private theorem setWork_step {task : Task} (found : Table.find? m.tasks id = some task)
    (unanswered : task.work ≠ .answered) {w : Work} (goes : w ≠ .answered) :
    TaskStep m id (m.setWork id task.ticket w) := by
  have step : TaskStep m id
      { m with tasks := Table.put m.tasks id ⟨task.ticket, w⟩, replies := m.replies ++ [] } :=
    .work ⟨task.ticket, w⟩ found unanswered rfl fun ends => absurd ends goes
  rwa [List.append_nil] at step

private theorem endTask_step {task : Task} (found : Table.find? m.tasks id = some task)
    (unanswered : task.work ≠ .answered) (paid : task.ticket.Spend rs 0) :
    TaskStep m id (m.endTask id task.ticket rs) :=
  .work ⟨task.ticket, .answered⟩ found unanswered rfl fun _ => paid.answered none

theorem stepTask_step {now : Nat} (step : m.stepTask? id now = some k) : TaskStep m id k := by
  unfold stepTask? at step
  cases found : Table.find? m.tasks id with
  | none => simp [found] at step
  | some task =>
    obtain ⟨t, work⟩ := task
    simp only [found, Option.bind_eq_bind, Option.bind_some] at step
    cases work with
    | start op args =>
      cases step
      unfold startTask
      split
      · exact endTask_step found (by simp) (.last (.fail _))
      · exact setWork_step found (by simp) (by simp)
    | begun op args =>
      cases step
      cases op with
      | instant run => exact endTask_step found (by simp) (.last (t.finish_last _))
      | streaming run =>
        cases result : run args with
        | ok stream =>
          simp only [runTask, result]
          exact setWork_step found (by simp) (by simp)
        | error f =>
          simp only [runTask, result]
          exact endTask_step found (by simp) (.last (.fail f))
    | drive d =>
      have paid := d.advance_paid t (m.isCancelled t) now
      simp only at step
      split at step
      · cases step
      · next more =>
        cases step
        rw [more] at paid
        exact .work ⟨_, .drive _⟩ found (by simp) (paid.call none) (by simp)
      · next ended =>
        cases step
        rw [ended] at paid
        exact endTask_step found (by simp) paid
    | answered =>
      cases step
      exact .tell found rfl

/-- An instance tells the end of the call that it answered. -/
theorem notices_of_stepInstance {now : Nat} (step : m.stepInstance? id now = some k)
    (found : Table.find? m.instances id = some i) :
    k.notices = m.notices ++ i.phase.finished?.toList := by
  unfold stepInstance? at step
  simp only [found, Option.bind_eq_bind, Option.bind_some] at step
  cases phase : i.phase with
  | idle =>
    simp only [phase] at step
    split at step
    · cases step
      simp [Phase.finished?, setInstance]
    · split at step
      · cases step
      · cases step
        simp [Phase.finished?, setInstance]
  | taken call =>
    simp only [phase, Option.some.injEq, invoke] at step
    subst step
    split
    · simp [Phase.finished?, endCall, setInstance, answerAll]
    · split <;> simp [Phase.finished?, endCall, setInstance, answerAll]
  | begun call method =>
    simp only [phase, Option.some.injEq] at step
    subst step
    cases method with
    | instant run => simp [perform, Phase.finished?, endCall, setInstance, answerAll]
    | streaming run =>
      simp only [perform]
      split <;> simp [Phase.finished?, endCall, setInstance, answerAll]
  | driving t d =>
    simp only [phase] at step
    split at step
    · cases step
    · cases step
      simp [Phase.finished?, setInstance, answerAll]
    · cases step
      simp [Phase.finished?, endCall, setInstance, answerAll]
  | answered key =>
    simp only [phase, Option.some.injEq] at step
    subst step
    simp [Phase.finished?, setInstance, notify]
  | closing =>
    simp only [phase, Option.some.injEq, drain] at step
    subst step
    split <;> simp [Phase.finished?, setInstance, answer]
  | drained key =>
    simp only [phase, Option.some.injEq] at step
    subst step
    simp [Phase.finished?, setInstance, notify]
  | ended =>
    simp only [phase] at step
    cases step

/-! ## Where the calls are -/

/-- The call that an instance is at, in its phase: the ticket of one not answered is at hand, of one that
is answered only the key. -/
inductive AtHand (replies : List Reply) (id : Nat) (phase : Phase σ) : List Call → Prop where
  | held {t : Ticket} (ticket : phase.ticket? = some t) : AtHand replies id phase [t.call (some id)]
  | finished {call : Call} (key : phase.finished? = some call.key) (answered : Answered replies call) :
      AtHand replies id phase [call]
  | free (ticket : phase.ticket? = none) (finished : phase.finished? = none) :
      AtHand replies id phase []

/-- The calls of an instance: the one that it is at, and those in its mailbox. -/
def Lined (replies : List Reply) (id : Nat) (i : Instance σ) (calls : List Call) : Prop :=
  ∃ front, AtHand replies id i.phase front ∧
    calls = front ++ i.mailbox.map fun call => call.ticket.call (some id)

theorem AtHand.mono {phase : Phase σ} {calls : List Call} (h : AtHand replies id phase calls)
    (longer : replies ⊆ rs) : AtHand rs id phase calls := by
  cases h with
  | held ticket => exact .held ticket
  | finished key answered => exact .finished key (answered.mono longer)
  | free ticket finished => exact .free ticket finished

theorem Lined.mono {calls : List Call} (h : Lined replies id i calls) (longer : replies ⊆ rs) :
    Lined rs id i calls := by
  obtain ⟨front, hand, line⟩ := h
  exact ⟨front, hand.mono longer, line⟩

theorem AtHand.of_ticket {phase : Phase σ} {front : List Call} {t : Ticket}
    (h : AtHand replies id phase front) (ticket : phase.ticket? = some t) :
    front = [t.call (some id)] := by
  cases h with
  | held own => rw [Option.some.inj (own.symm.trans ticket)]
  | finished key => cases phase <;> cases key <;> cases ticket
  | free none => simp [none] at ticket

theorem AtHand.of_free {phase : Phase σ} {front : List Call} (h : AtHand replies id phase front)
    (ticket : phase.ticket? = none) (finished : phase.finished? = none) : front = [] := by
  cases h with
  | held own => simp [ticket] at own
  | finished key => simp [finished] at key
  | free => rfl

theorem AtHand.of_finished {phase : Phase σ} {front : List Call} {key : CallKey}
    (h : AtHand replies id phase front) (finished : phase.finished? = some key) :
    ∃ call, front = [call] ∧ call.key = key ∧ Answered replies call := by
  cases h with
  | held own => cases phase <;> cases finished <;> cases own
  | finished own answered => exact ⟨_, rfl, Option.some.inj (own.symm.trans finished), answered⟩
  | free ticket none => simp [none] at finished

/-- A move of an instance works on the first of its calls. -/
theorem Lined.work {closed : Bool} {calls : List Call} (h : Lined replies id i calls)
    (step : InstanceStep closed i rs next) (silent : i.phase.finished? = none) :
    Lined (replies ++ rs) id next calls := by
  obtain ⟨front, hand, line⟩ := h
  subst line
  have longer : replies ⊆ replies ++ rs := List.subset_append_left _ _
  -- the call at hand is answered by the last of the replies
  have ends {t : Ticket} (ticket : i.phase.ticket? = some t) (paid : t.Spend rs 0)
      {phase : Phase σ} (told : phase.finished? = some t.key) :
      AtHand (replies ++ rs) id phase front := by
    rw [hand.of_ticket ticket]
    exact .finished told ((paid.answered (some id)).mono (List.subset_append_right _ _))
  cases step with
  | close phase =>
    rw [hand.of_free (by rw [phase]; rfl) silent]
    exact ⟨[], .free rfl rfl, rfl⟩
  | @take call rest phase isOpen queue =>
    rw [hand.of_free (by rw [phase]; rfl) silent, queue]
    exact ⟨[call.ticket.call (some id)], .held rfl, rfl⟩
  | refuse f phase => exact ⟨front, ends (by rw [phase]; rfl) (.last (.fail f)) rfl, rfl⟩
  | start phase =>
    rw [hand.of_ticket (by rw [phase]; rfl)]
    exact ⟨_, .held rfl, rfl⟩
  | answer phase last => exact ⟨front, ends (by rw [phase]; rfl) (.last last) rfl, rfl⟩
  | stream s now phase =>
    rw [hand.of_ticket (by rw [phase]; rfl)]
    exact ⟨_, .held rfl, rfl⟩
  | drive phase paid =>
    rw [hand.of_ticket (by rw [phase]; rfl), ← paid.call]
    exact ⟨_, .held rfl, rfl⟩
  | finish phase paid => exact ⟨front, ends (by rw [phase]; rfl) paid rfl, rfl⟩
  | resume phase => simp [phase, Phase.finished?] at silent
  | @drain call rest phase queue =>
    rw [hand.of_free (by rw [phase]; rfl) silent, queue]
    have refused : Answered [call.ticket.fail (.notFound "component" i.name)]
        (call.ticket.call (some id)) := (Ticket.Spend.last (.fail _)).answered (some id)
    exact ⟨[call.ticket.call (some id)],
      .finished rfl (refused.mono (List.subset_append_right _ _)), rfl⟩
  | reopen phase => simp [phase, Phase.finished?] at silent
  | tearDown phase queue =>
    rw [hand.of_free (by rw [phase]; rfl) silent]
    exact ⟨[], .free rfl rfl, rfl⟩

/-- An instance that tells the end of a call tells that of the first. -/
theorem Lined.tell {closed : Bool} {calls : List Call} {key : CallKey}
    (h : Lined replies id i calls) (step : InstanceStep closed i rs next)
    (finished : i.phase.finished? = some key) :
    ∃ call rest, calls = call :: rest ∧ call.key = key ∧ Answered replies call ∧ rs = [] ∧
      Lined replies id next rest := by
  obtain ⟨front, hand, line⟩ := h
  obtain ⟨call, rfl, same, answered⟩ := hand.of_finished finished
  refine ⟨call, _, line, same, answered, ?_⟩
  cases step with
  | resume phase => exact ⟨rfl, [], .free rfl rfl, rfl⟩
  | reopen phase => exact ⟨rfl, [], .free rfl rfl, rfl⟩
  | close phase | take phase | refuse f phase | start phase | answer phase | stream s now phase
  | drive phase | finish phase | drain phase | tearDown phase =>
    simp [phase, Phase.finished?] at finished

end Machine

end Patchbay
