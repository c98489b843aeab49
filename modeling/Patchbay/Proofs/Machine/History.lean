import Mathlib.Logic.Relation
import Patchbay.Proofs.Machine.Moves

/-!
# Histories of a machine

A history is a run of a machine from its start, with the requests it handled. Two things hold in all
of them: the machine is tidy, and its requests, held tickets and replies are a sound ledger.
-/

namespace Patchbay.Machine

variable {σ : Type}

/-- A machine that was started, and the requests it has handled since, in order. Functions need not
be pure: between two moves the registry may be exchanged, so that a function behaves differently at
each call, and a component type at each define. -/
inductive History : List Request → Machine σ → Prop where
  | start (registry : Registry σ) : History [] (init registry)
  | move {asked : List Request} {m k : Machine σ} (l : Move) (before : History asked m)
      (step : m.move? l = some k) : History (asked ++ l.asked) k
  | exchange {asked : List Request} {m : Machine σ} (registry : Registry σ)
      (before : History asked m) : History asked { m with registry := registry }

/-- Every machine that is reached from a started one has a history. -/
theorem history_of_reaches {registry : Registry σ} {m : Machine σ}
    (run : Reaches (init registry) m) : ∃ asked, History asked m := by
  induction run with
  | refl => exact ⟨[], .start registry⟩
  | move l _ step ih =>
    obtain ⟨asked, before⟩ := ih
    exact ⟨asked ++ l.asked, .move l before step⟩

/-- The machine after some moves, if they can be made one after the other. -/
def after? (m : Machine σ) : List Move → Option (Machine σ)
  | [] => some m
  | l :: rest => (m.move? l).bind fun n => n.after? rest

theorem History.after {asked : List Request} {m k : Machine σ} (history : History asked m)
    {moves : List Move} (run : m.after? moves = some k) :
    History (asked ++ moves.flatMap Move.asked) k := by
  induction moves generalizing asked m with
  | nil =>
    obtain rfl : m = k := by simpa [after?] using run
    simpa using history
  | cons l rest ih =>
    obtain ⟨n, step, run⟩ := Option.bind_eq_some_iff.1 run
    simpa using ih (.move l history step) run

/-! ## Tidiness -/

/-- Numbers below `bound` were given out, each once; a name that is in use, and a waiter, refer to
an instance that is there; an instance has ended only behind the last of its calls. -/
structure Tidy (bound : Nat) (m : Machine σ) : Prop where
  tasks : Table.Below bound m.tasks
  instances : Table.Below bound m.instances
  waiters : Table.Below bound m.waiters
  live : ∀ entry ∈ m.live, ∃ i, Table.find? m.instances entry.2 = some i
  drained : ∀ id i, Table.find? m.instances id = some i → i.phase.hasEnded → i.mailbox = []
  awaited : ∀ entry ∈ m.waiters, ∃ i,
    Table.find? m.instances entry.2.instanceId = some i ∧ i.deleted

theorem tidy_init (registry : Registry σ) : Tidy 0 (init registry) where
  tasks := .nil 0
  instances := .nil 0
  waiters := .nil 0
  live := by simp [init]
  drained := by simp [init]
  awaited := by simp [init]

section

variable {bound : Nat} {m k : Machine σ}

theorem Tidy.mono (h : m.Tidy bound) {larger : Nat} (le : bound ≤ larger) : m.Tidy larger :=
  { h with
    tasks := h.tasks.mono le
    instances := h.instances.mono le
    waiters := h.waiters.mono le }

theorem Tidy.task {id : Nat} (h : m.Tidy bound) (move : TaskMove m id k) : k.Tidy bound := by
  cases move with
  | work next found paid => exact { h with tasks := h.tasks.put _ found }
  | drop found answered => exact { h with tasks := h.tasks.erase _ }

theorem Tidy.instance {id : Nat} (h : m.Tidy bound) (move : InstanceMove m id k) :
    k.Tidy bound := by
  cases move with
  | @work i next rs notices found step =>
    have deleted : next.deleted = i.deleted := step.deleted
    -- What was found under a number is found there still, except for the instance that moved.
    have known (j : Nat) (x : Instance σ) (old : Table.find? m.instances j = some x) :
        ∃ y, Table.find? (Table.put m.instances id next) j = some y ∧ y.deleted = x.deleted := by
      rw [Table.find?_put]
      split
      · next same =>
        subst same
        cases found.symm.trans old
        exact ⟨next, rfl, deleted⟩
      · exact ⟨x, old, rfl⟩
    refine ⟨h.tasks, h.instances.put _ found, h.waiters, fun entry member => ?_,
      fun j x here ended => ?_, fun entry member => ?_⟩
    · obtain ⟨x, old⟩ := h.live entry member
      obtain ⟨y, here, -⟩ := known _ x old
      exact ⟨y, here⟩
    · simp only [Table.find?_put] at here
      split at here
      · cases here
        exact step.drained ended
      · exact h.drained j x here ended
    · obtain ⟨x, old, gone⟩ := h.awaited entry member
      obtain ⟨y, here, same⟩ := known _ x old
      exact ⟨y, here, same.trans gone⟩

theorem Tidy.waiter {id : Nat} (h : m.Tidy bound) (move : WaiterMove m id k) :
    k.Tidy bound := by
  cases move with
  | settle found awaited ended =>
    refine { h with waiters := h.waiters.erase _, awaited := fun entry member => ?_ }
    exact h.awaited entry (List.mem_of_mem_filter member)

/-- An execute takes the next number. -/
theorem Tidy.execute {t : Ticket} (h : m.Tidy t.serial) (move : ExecuteMove m t k) :
    k.Tidy (t.serial + 1) := by
  have wider := h.mono (Nat.le_succ t.serial)
  cases move with
  | refused inflight f => exact { wider with }
  | started op args => exact { wider with tasks := h.tasks.append _ }
  | defined name component v =>
    have kept (j : Nat) (x : Instance σ) (old : Table.find? m.instances j = some x) :
        Table.find? (m.instances ++ [(t.serial, ⟨name, component, [], .idle, false⟩)]) j =
          some x := by rw [Table.find?_append, old]; rfl
    refine ⟨wider.tasks, h.instances.append _, wider.waiters, fun entry member => ?_,
      fun j x here ended => ?_, fun entry member => ?_⟩
    · rcases Table.mem_put member with written | old
      · refine Table.exists_of_mem_keys ?_
        rw [written]
        simp [Table.keys]
      · obtain ⟨x, here⟩ := h.live entry old
        exact ⟨x, kept _ x here⟩
    · simp only [Table.find?_append, Option.or_eq_some_iff] at here
      rcases here with old | ⟨-, new⟩
      · exact h.drained j x old ended
      · rw [Table.find?_cons] at new
        split at new
        · cases new
          cases ended
        · cases new
    · obtain ⟨x, old, gone⟩ := h.awaited entry member
      exact ⟨x, kept _ x old, gone⟩
  | @deleting name id found =>
    have marked (j : Nat) (x : Instance σ) (old : Table.find? m.instances j = some x) :
        ∃ y, Table.find? (Table.modify m.instances id fun i => { i with deleted := true }) j =
          some y ∧ (x.deleted ∨ j = id → y.deleted) := by
      rw [Table.find?_modify, old]
      refine ⟨_, rfl, fun gone => ?_⟩
      split
      · rfl
      · next other => exact gone.resolve_right (fun same => other same.symm)
    have instances := wider.instances.modify id fun i : Instance σ => { i with deleted := true }
    refine ⟨wider.tasks, instances, h.waiters.append _, fun entry member => ?_,
      fun j x here ended => ?_, fun entry member => ?_⟩
    · obtain ⟨x, old⟩ := h.live entry (List.mem_of_mem_filter member)
      obtain ⟨y, here, -⟩ := marked _ x old
      exact ⟨y, here⟩
    · simp only [Table.find?_modify] at here
      obtain ⟨y, old, rfl⟩ := Option.map_eq_some_iff.1 here
      split at ended <;> split <;> exact h.drained j y old ended
    · rcases List.mem_append.1 member with old | new
      · obtain ⟨x, here, gone⟩ := h.awaited entry old
        obtain ⟨y, there, flag⟩ := marked _ x here
        exact ⟨y, there, flag (.inl gone)⟩
      · obtain ⟨x, here⟩ := h.live (name, id) (Table.mem_of_find? found)
        obtain ⟨y, there, flag⟩ := marked id x here
        rw [List.mem_singleton.1 new]
        exact ⟨y, there, flag (.inr rfl)⟩
  | @queued id i call found accepts ticket =>
    have marked (j : Nat) (x : Instance σ) (old : Table.find? m.instances j = some x) :
        ∃ y, Table.find? (Table.modify m.instances id fun i =>
          { i with mailbox := i.mailbox ++ [call] }) j = some y ∧ y.deleted = x.deleted := by
      rw [Table.find?_modify, old]
      refine ⟨_, rfl, ?_⟩
      split <;> rfl
    have instances := wider.instances.modify id fun i : Instance σ =>
      { i with mailbox := i.mailbox ++ [call] }
    refine ⟨wider.tasks, instances, wider.waiters, fun entry member => ?_,
      fun j x here ended => ?_, fun entry member => ?_⟩
    · obtain ⟨x, old⟩ := h.live entry member
      obtain ⟨y, here, -⟩ := marked _ x old
      exact ⟨y, here⟩
    · simp only [Table.find?_modify] at here
      obtain ⟨y, old, rfl⟩ := Option.map_eq_some_iff.1 here
      split at ended
      · -- an instance that accepts calls has not ended
        next same =>
        subst same
        cases found.symm.trans old
        exact absurd ended (Phase.not_hasEnded_of_accepts accepts)
      · next other =>
        rw [if_neg other]
        exact h.drained j y old ended
    · obtain ⟨x, old, gone⟩ := h.awaited entry member
      obtain ⟨y, here, same⟩ := marked _ x old
      exact ⟨y, here, same.trans gone⟩

theorem Tidy.moved {asked : List Request} (h : m.Tidy m.serial) (move : Moved m asked k) :
    k.Tidy (m.serial + asked.length) := by
  cases move with
  | execute move =>
    have renumbered : Tidy m.serial { m with serial := m.serial + 1 } := { h with }
    exact Tidy.execute (t := .issue m.serial _ _ _) renumbered move
  | cancel tripped serial => exact { h.mono (Nat.le_succ m.serial) with }
  | upkeep known => exact { h with live := fun entry member => h.live entry (known member) }
  | task move => exact h.task move
  | «instance» move => exact h.instance move
  | waiter move => exact h.waiter move

/-! ## The ledger -/

/-- What is owed by a machine that handled these requests. -/
def ledger (asked : List Request) (m : Machine σ) : Ledger := ⟨asked, m.held, m.replies⟩

theorem TaskMove.pays {id : Nat} (h : m.Tidy bound) (move : TaskMove m id k) :
    ∃ rs, Pays m.held rs k.held ∧ k.replies = m.replies ++ rs := by
  cases move with
  | @work task next rs found paid =>
    obtain ⟨rest, before, after⟩ := Table.total_put Task.held found
    refine ⟨rs, ?_, rfl⟩
    simp only [held, before, after next, add_assoc]
    exact paid.frame _
  | @drop task found answered =>
    have same := Table.total_erase Task.held h.tasks.unique found
    rw [answered, zero_add] at same
    refine ⟨[], ?_, (List.append_nil _).symm⟩
    simp only [held, ← same]
    exact .nothing _

theorem InstanceMove.pays {id : Nat} (move : InstanceMove m id k) :
    ∃ rs, Pays m.held rs k.held ∧ k.replies = m.replies ++ rs := by
  cases move with
  | @work i next rs notices found step =>
    obtain ⟨rest, before, after⟩ := Table.total_put Instance.held found
    refine ⟨rs, ?_, rfl⟩
    simp only [held, before, after next, add_assoc]
    rw [add_left_comm _ i.held, add_left_comm _ next.held]
    exact step.paid.frame _

theorem WaiterMove.pays {id : Nat} (h : m.Tidy bound) (move : WaiterMove m id k) :
    ∃ rs, Pays m.held rs k.held ∧ k.replies = m.replies ++ rs := by
  cases move with
  | @settle w i found awaited ended =>
    have split := Table.total_erase Waiter.held h.waiters.unique found
    refine ⟨[w.ticket.done .null], ?_, rfl⟩
    simp only [held, split, Waiter.held]
    rw [add_left_comm]
    have paid : w.ticket.Spend [w.ticket.done .null] 0 := .last (.done .null)
    simpa using Pays.spend paid _

/-- An execute adds its ticket, with which something may be paid at once. -/
theorem ExecuteMove.pays {t : Ticket} (h : m.Tidy bound) (move : ExecuteMove m t k) :
    ∃ rs, Pays ({t} + m.held) rs k.held ∧ k.replies = m.replies ++ rs := by
  cases move with
  | refused inflight f =>
    refine ⟨[t.fail f], ?_, rfl⟩
    simpa [held] using Pays.spend (.last (.fail f)) m.held
  | started op args =>
    refine ⟨[], ?_, (List.append_nil _).symm⟩
    have same : ({t} : Multiset Ticket) + m.held = held { m with
        inflight := Table.put m.inflight t.key t.serial
        tasks := m.tasks ++ [(t.serial, ⟨t, .start op args⟩)] } := by
      simp only [held, Table.total_append, Table.total, Task.held, add_zero]
      rw [add_comm (Table.total Task.held m.tasks) {t}, add_assoc, add_assoc, add_assoc]
    rw [same]
    exact .nothing _
  | defined name component v =>
    refine ⟨[t.done v], ?_, rfl⟩
    have empty : Instance.held (σ := σ) ⟨name, component, [], .idle, false⟩ = 0 :=
      Instance.held_idle rfl
    simp only [held, Table.total_append, Table.total, empty, add_zero]
    simpa using Pays.spend (.last (.done v)) _
  | @deleting name id found =>
    obtain ⟨i, here⟩ := h.live (name, id) (Table.mem_of_find? found)
    obtain ⟨rest, before, after⟩ :=
      Table.total_modify Instance.held (fun i => { i with deleted := true }) h.instances.unique here
    refine ⟨[], ?_, (List.append_nil _).symm⟩
    have same : Table.total Instance.held
        (Table.modify m.instances id fun i => { i with deleted := true }) =
          Table.total Instance.held m.instances := after.trans before.symm
    simp only [held, same, Table.total_append, Table.total, Waiter.held, add_zero]
    rw [add_comm, ← add_assoc]
    exact .nothing _
  | @queued id i call found accepts ticket =>
    obtain ⟨rest, before, after⟩ := Table.total_modify Instance.held
      (fun i => { i with mailbox := i.mailbox ++ [call] }) h.instances.unique found
    refine ⟨[], ?_, (List.append_nil _).symm⟩
    have more : Instance.held { i with mailbox := i.mailbox ++ [call] } = {t} + i.held := by
      have single : queuedTickets [call] = {t} := by rw [← ticket]; rfl
      rw [Instance.held, queuedTickets_append, single, ← add_assoc, add_comm]
      rfl
    have sum : ∀ a b c : Multiset Ticket, {t} + (a + b + c) = a + ({t} + b) + c := by
      intro a b c
      simp only [add_left_comm, add_assoc]
    simp only [held, before, after, more]
    rw [add_assoc {t} i.held, ← sum]
    exact .nothing _

theorem Moved.serial {asked : List Request} (move : Moved m asked k) :
    k.serial = m.serial + asked.length := by
  cases move with
  | execute move => cases move <;> rfl
  | cancel tripped serial => rfl
  | upkeep known => rfl
  | task move => cases move <;> rfl
  | «instance» move => cases move; rfl
  | waiter move => cases move; rfl

/-- Sending replies keeps the ledger sound, if they are paid for. -/
private theorem sound_pays {asked : List Request} (sound : (m.ledger asked).Sound)
    (paid : ∃ rs, Pays m.held rs k.held ∧ k.replies = m.replies ++ rs) :
    (k.ledger asked).Sound := by
  obtain ⟨rs, pays, replies⟩ := paid
  rw [ledger, replies]
  exact (Ledger.Step.pay asked m.replies pays).sound sound

/-- The ledger of a machine stays sound by every move. -/
theorem Moved.sound {asked new : List Request} (move : Moved m new k) (h : m.Tidy m.serial)
    (number : asked.length = m.serial) (sound : (m.ledger asked).Sound) :
    (k.ledger (asked ++ new)).Sound := by
  cases move with
  | @execute origin target packet k move =>
    have renumbered : Tidy m.serial { m with serial := m.serial + 1 } := { h with }
    obtain ⟨rs, pays, replies⟩ := move.pays renumbered
    have issued := (Ledger.Step.execute asked m.held m.replies origin target packet).sound sound
    rw [number] at issued
    rw [ledger, replies]
    exact (Ledger.Step.pay _ m.replies pays).sound issued
  | @cancel origin tx tripped r serial =>
    exact (Ledger.Step.cancel asked m.held m.replies origin tx r (serial.trans number.symm)).sound
      sound
  | upkeep known =>
    rw [List.append_nil]
    exact sound
  | task move => simpa using sound_pays sound (move.pays h)
  | «instance» move => simpa using sound_pays sound move.pays
  | waiter move => simpa using sound_pays sound (move.pays h)

end

/-! ## All histories -/

/-- The requests are numbered in order, the machine is tidy, and its ledger is sound. -/
structure Orderly (asked : List Request) (m : Machine σ) : Prop where
  number : asked.length = m.serial
  tidy : m.Tidy m.serial
  sound : (m.ledger asked).Sound

theorem History.orderly {asked : List Request} {m : Machine σ} (h : History asked m) :
    m.Orderly asked := by
  induction h with
  | start registry =>
    refine ⟨rfl, tidy_init registry, ?_⟩
    have empty : (init registry).held = 0 := rfl
    rw [ledger, empty]
    exact Ledger.sound_empty
  | move l before step ih =>
    have moved := move_moved step
    refine ⟨?_, ?_, moved.sound ih.tidy ih.number ih.sound⟩
    · rw [List.length_append, moved.serial, ih.number]
    · rw [moved.serial]
      exact ih.tidy.moved moved
  | exchange registry before ih => exact ⟨ih.number, { ih.tidy with }, ih.sound⟩

end Patchbay.Machine
